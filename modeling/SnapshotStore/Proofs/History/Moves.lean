import Mathlib
import SnapshotStore.Proofs.History.Shows

/-!
# Every move shows

A move of a store and the event it bears change the store and its history alike (`Move.shows`). Most
moves change no chain and no deed (`Table.Shows.goes_on`); a write puts a deed on top of one row
(`Table.Shows.deed`); a commit turns pending deeds into committed ones; undoing takes the same deeds off
the chains and out of history.
-/

namespace SnapshotStore

open Chain

/-! ## 1. Tables -/

namespace Table

variable {l l' : Ledger} {c c' : Chronicle} {tid : TableId} {table after : Table}

/-- A table goes on showing the deeds to its rows while they and its chains stay. -/
theorem Shows.goes_on (shows : table.Shows l c tid) (lok : l.Ok) (grows : Ledger.Grows l l')
    (hwrites : ∀ id row, c'.writes id tid row = c.writes id tid row)
    (hsettled : ∀ row, c'.settled tid row = c.settled tid row)
    (hcommitted : ∀ {id s : Int}, c.CommittedAt id s → c'.CommittedAt id s)
    (hactive : ∀ {id s' : Int} {row : RowHandle}, l'.active[id]? = some s' →
      c.writes id tid row ≠ [] → ∃ s ≤ s', l.active[id]? = some s)
    (hchains : ∀ row, after.chainOf row = table.chainOf row)
    (hhandle : table.nextHandle ≤ after.nextHandle)
    (hnotes : ∀ note ∈ after.pendingDeletes, note ∈ table.pendingDeletes) :
    after.Shows l' c' tid where
  born {id row} h := by
    rw [hwrites, hsettled] at h
    exact Nat.lt_of_lt_of_le (shows.born h) hhandle
  final id row := by
    rw [hwrites, hsettled]
    exact shows.final id row
  recent {id snapshot row} hrunning hne deed hdeed := by
    rw [hwrites] at hne
    rw [hsettled] at hdeed
    obtain ⟨s, hs, hrunning'⟩ := hactive hrunning hne
    obtain ⟨s', hs', hcommit⟩ := shows.recent hrunning' hne deed hdeed
    exact ⟨s', Int.le_trans hs' hs, hcommitted hcommit⟩
  notes {row sequence} h := by
    obtain ⟨deed, earlier, heq, hrecord, hcommit⟩ := shows.notes (hnotes _ h)
    exact ⟨deed, earlier, (hsettled row).trans heq, hrecord, hcommitted hcommit⟩
  chains id row hothers := by
    rw [hwrites, hsettled, hchains]
    refine (shows.chains id row fun other hne => ?_).grows grows lok
    rw [← hwrites]
    exact hothers other hne

/-- A table with the same chains under the same ledger. -/
theorem Shows.same_chains (shows : table.Shows l c tid) (lok : l.Ok)
    (hchains : ∀ row, after.chainOf row = table.chainOf row)
    (hhandle : table.nextHandle ≤ after.nextHandle)
    (hnotes : ∀ note ∈ after.pendingDeletes, note ∈ table.pendingDeletes) :
    after.Shows l c tid :=
  shows.goes_on lok (.refl l) (fun _ _ => rfl) (fun _ => rfl) (fun h => h)
    (fun h _ => ⟨_, Int.le_refl _, h⟩) hchains hhandle hnotes

theorem shows_create (l : Ledger) (c : Chronicle) (tid : TableId) (name : String) (schema : Schema)
    (config : Config) (h : ∀ id row, c.writes id tid row ++ c.settled tid row = []) :
    (create name schema config).Shows l c tid where
  born {id row} hne := absurd (h id row) hne
  final id row := by
    rw [h]
    intro deed hdeed
    cases hdeed
  recent {id _ row} _ hne := absurd (List.append_eq_nil_iff.mp (h id row)).1 hne
  notes hin := by cases hin
  chains id row _ := by
    rw [h]
    have hchain : (create name schema config).chainOf row = [] := by simp [create, chainOf]
    rw [hchain]
    exact shows_nil l

section Writing

variable {work : Work} {txn : Transaction} {row : RowHandle} {newest : Version} {older : Chain}

/-- Somebody who may write over a row is the only one who does. -/
theorem writes_eq_nil (ok : Ok l work tid [] table) (lok : l.Ok) (wok : Work.Ok l work)
    (worked : work.Shows c) {id snapshot : Int}
    (writable : ∀ newest older, table.chainOf row = newest :: older →
      newest.isWritable l id snapshot = true) :
    ∀ other, other ≠ id → c.writes other tid row = [] := by
  intro other hne
  obtain ⟨_, hothers⟩ := ok.layered_of_isWritable lok wok writable
  exact (worked.logged other tid row).eq_nil.mp (hothers other hne)

/-- A row that may be written over has not been deleted. -/
theorem Shows.undeleted (shows : table.Shows l c tid) {id : Int}
    (hothers : ∀ other, other ≠ id → c.writes other tid row = [])
    (hunmarked : ∀ newest older, table.chainOf row = newest :: older → newest.isMarked = false)
    (hhandle : table.chainOf row = [] → row.val = table.nextHandle) :
    (table.chainOf row = [] → c.writes id tid row ++ c.settled tid row = []) ∧
      ∀ deed ∈ c.writes id tid row ++ c.settled tid row, deed.record?.isSome = true := by
  have hchain := shows.chains id row hothers
  have hnew : table.chainOf row = [] → c.writes id tid row ++ c.settled tid row = [] := by
    intro hnil
    by_contra hne
    have hlt := shows.born hne
    rw [hhandle hnil] at hlt
    exact Nat.lt_irrefl _ hlt
  refine ⟨hnew, fun deed hdeed => ?_⟩
  cases hrow : table.chainOf row with
  | nil =>
    rw [hnew hrow] at hdeed
    cases hdeed
  | cons newest older =>
    rw [hrow] at hchain
    obtain ⟨last, earlier, heq, hmarked⟩ := hchain.newest
    rw [hunmarked newest older hrow] at hmarked
    have hfinal := shows.final id row
    rw [heq] at hdeed hfinal
    rcases List.mem_cons.mp hdeed with rfl | hdeed
    · rw [← Option.not_isNone, ← hmarked]
      rfl
    · exact hfinal deed hdeed

/-- Whoever may write over a row knew all that was committed of it. -/
theorem Shows.known (shows : table.Shows l c tid) (attests : l.Attests c)
    (sound : c.Sound) {id snapshot : Int} (running : l.active[id]? = some snapshot)
    (hothers : ∀ other, other ≠ id → c.writes other tid row = [])
    (writable : ∀ newest older, table.chainOf row = newest :: older →
      newest.isWritable l id snapshot = true)
    (hhandle : table.chainOf row = [] → row.val = table.nextHandle) :
    ∀ deed ∈ c.settled tid row, ∃ s ≤ snapshot, c.CommittedAt deed.transaction s := by
  have hunmarked := fun newest older h => (isWritable_iff.mp (writable newest older h)).1
  obtain ⟨hnew, hrecords⟩ := shows.undeleted hothers hunmarked hhandle
  by_cases hwrites : c.writes id tid row = []
  · have hchain := shows.chains id row hothers
    rw [hwrites, List.nil_append] at hnew hrecords hchain
    intro deed hdeed
    cases hrow : table.chainOf row with
    | nil =>
      rw [hnew hrow] at hdeed
      cases hdeed
    | cons newest older =>
      cases hsettled : c.settled tid row with
      | nil =>
        rw [hsettled] at hdeed
        cases hdeed
      | cons last earlier =>
        rw [hsettled, hrow] at hchain
        obtain ⟨dropped, hspells, _⟩ := hchain
        have hlast := hrecords last (by rw [hsettled]; exact List.mem_cons_self)
        obtain ⟨record, hrecord⟩ := Option.isSome_iff_exists.mp hlast
        obtain ⟨v, _, heq, _, hcreated, _, _⟩ := (spells_record hrecord).mp hspells
        have hcreator : newest.created.transaction = last.transaction := by
          rw [(List.cons.inj heq).1, hcreated]
          rfl
        obtain ⟨s, hs⟩ := Chronicle.committedAt_of_mem_settled sound
          (by rw [hsettled]; exact List.mem_cons_self : last ∈ c.settled tid row)
        have hle : s ≤ snapshot := by
          rcases (isWritable_iff.mp (writable newest older hrow)).2 with hown | hseen
          · rw [hcreator] at hown
            rw [hown] at hs
            rw [(attests.ended hs).2.2.2] at running
            cases running
          · rw [hcreator, attests.committedBy hs (Ledger.horizon_le_snapshot running)] at hseen
            exact of_decide_eq_true hseen
        have horder := Chronicle.pairwise_settled sound tid row
        rw [hsettled] at hdeed horder
        rcases List.mem_cons.mp hdeed with rfl | hdeed
        · exact ⟨s, hle, hs⟩
        · obtain ⟨s', s'', hs', hs'', hle'⟩ := (List.pairwise_cons.mp horder).1 deed hdeed
          rw [attests.unique hs' hs] at hle'
          exact ⟨s'', Int.le_trans hle' hle, hs''⟩
  · exact shows.recent running hwrites

/-- A deed on top of those to a row. -/
theorem Shows.deed (shows : table.Shows l c tid) (attests : l.Attests c)
    (sound : c.Sound) {id snapshot : Int} (running : l.active[id]? = some snapshot)
    (hothers : ∀ other, other ≠ id → c.writes other tid row = [])
    (writable : ∀ newest older, table.chainOf row = newest :: older →
      newest.isWritable l id snapshot = true)
    (hhandle : table.chainOf row = [] → row.val = table.nextHandle) (record? : Option Record)
    (hborn : row.val < after.nextHandle) (hnext : table.nextHandle ≤ after.nextHandle)
    (hnotes : after.pendingDeletes = table.pendingDeletes)
    (helsewhere : ∀ other, other ≠ row → after.chainOf other = table.chainOf other)
    (hhere : Chain.Shows l (⟨id, c.statement id, tid, row, record?⟩ ::
      (c.writes id tid row ++ c.settled tid row)) (after.chainOf row)) :
    after.Shows l (c.tell (.wrote id tid row record?)) tid := by
  have hsettled : ∀ r, (c.tell (.wrote id tid row record?)).settled tid r = c.settled tid r :=
    fun _ => rfl
  have hunmarked := fun newest older h => (isWritable_iff.mp (writable newest older h)).1
  obtain ⟨_, hrecords⟩ := shows.undeleted hothers hunmarked hhandle
  refine ⟨fun {other r} hne => ?_, fun other r => ?_, fun {other s r} hother hne => ?_,
    fun {r s} hin => ?_, fun other r hr => ?_⟩
  · rw [Chronicle.writes_wrote, hsettled] at hne
    split at hne
    · rename_i heq
      rw [heq.2.2]
      exact hborn
    · exact Nat.lt_of_lt_of_le (shows.born hne) hnext
  · rw [Chronicle.writes_wrote, hsettled]
    split
    · rename_i heq
      rw [heq.1, heq.2.2]
      exact hrecords
    · exact shows.final other r
  · rw [Chronicle.writes_wrote] at hne
    split at hne
    · rename_i heq
      rw [heq.1] at hother
      rw [heq.2.2]
      rw [running] at hother
      cases hother
      exact shows.known attests sound running hothers writable hhandle
    · exact shows.recent hother hne
  · rw [hnotes] at hin
    exact shows.notes hin
  · rw [Chronicle.writes_wrote, hsettled]
    by_cases hrow : r = row
    · by_cases hid : other = id
      · rw [if_pos ⟨hid, rfl, hrow⟩, hid, hrow]
        exact hhere
      · have hnone := hr id (Ne.symm hid)
        rw [Chronicle.writes_wrote, if_pos ⟨rfl, rfl, hrow⟩] at hnone
        cases hnone
    · rw [if_neg (fun h => hrow h.2.2), helsewhere r hrow]
      refine shows.chains other r fun another hne => ?_
      have hnone := hr another hne
      rwa [Chronicle.writes_wrote, if_neg (fun h => hrow h.2.2)] at hnone

end Writing

/-- A deed elsewhere. -/
theorem Shows.deed_elsewhere (shows : table.Shows l c tid) (lok : l.Ok) {other : TableId}
    (hne : tid ≠ other) (id : Int) (row : RowHandle) (record? : Option Record) :
    table.Shows l (c.tell (.wrote id other row record?)) tid := by
  refine shows.goes_on lok (.refl l) (fun writer r => ?_) (fun _ => rfl) (fun h => h)
    (fun h _ => ⟨_, Int.le_refl _, h⟩) (fun _ => rfl) (Nat.le_refl _) fun _ h => h
  rw [Chronicle.writes_wrote, if_neg (fun h => hne h.2.1)]

/-- Undoing leaves what is not a row or an entry. -/
theorem undoLog_rest (table : Table) (tid : TableId) (id : Int) (log : List LogEntry) :
    (table.undoLog tid id log).nextHandle = table.nextHandle ∧
      (table.undoLog tid id log).pendingDeletes = table.pendingDeletes ∧
      (table.undoLog tid id log).outdated = table.outdated := by
  induction log generalizing table with
  | nil => exact ⟨rfl, rfl, rfl⟩
  | cons entry log ih =>
    obtain ⟨hhandle, hpending, houtdated⟩ :=
      ih (if entry.table = tid then table.undo id entry.write else table)
    obtain ⟨hhandle', _, hpending', houtdated', _⟩ := undo_rest table id entry.write
    have hstep : table.undoLog tid id (entry :: log) =
        (if entry.table = tid then table.undo id entry.write else table).undoLog tid id log := rfl
    rw [hstep, hhandle, hpending, houtdated]
    split
    · exact ⟨hhandle', hpending', houtdated'⟩
    · exact ⟨rfl, rfl, rfl⟩

end Table

/-! ## 2. Rollback -/

/-- What a rollback undoes and what it leaves, in the log and in history. -/
theorem Work.Shows.undoing {work : Work} {c : Chronicle} (worked : work.Shows c) {id : Int}
    {txn : Transaction} (running : work id = some txn) (txnOk : txn.Ok) (whole : Bool)
    (tid : TableId) (row : RowHandle) : ∃ undone, c.writes id tid row =
        undone ++ (c.tell (.undone id whole)).writes id tid row ∧
      List.Forall₂ LogEntry.Matches (rowLog tid row (txn.undoing whole)) undone ∧
      List.Forall₂ LogEntry.Matches (rowLog tid row (txn.remaining whole))
        ((c.tell (.undone id whole)).writes id tid row) := by
  have hlogged := worked.logged id tid row
  rw [Work.log_eq running, txn.log_eq_undoing_append whole, rowLog_append] at hlogged
  obtain ⟨undone, left, heq, hundone, hleft⟩ := hlogged.exists_append
  have hnew : (c.tell (.undone id whole)).writes id tid row = left := by
    rw [Chronicle.writes_undone, if_pos rfl]
    cases whole with
    | true => exact (hleft.eq_nil.mp rfl).symm
    | false =>
      have hgone : undone.filter (fun deed => decide (deed.statement ≠ c.statement id)) = [] := by
        refine List.filter_eq_nil_iff.mpr fun deed hdeed => ?_
        obtain ⟨entry, hentry, hmatch⟩ := hundone.exists_of_mem hdeed
        have hstatement :=
          Transaction.statement_of_mem_currentWrites (List.mem_of_mem_filter hentry)
        rw [worked.statement running, ← hmatch.statement, hstatement]
        simp
      have hstays : left.filter (fun deed => decide (deed.statement ≠ c.statement id)) = left := by
        refine List.filter_eq_self.mpr fun deed hdeed => ?_
        obtain ⟨entry, hentry, hmatch⟩ := hleft.exists_of_mem hdeed
        have hlt := txnOk.statement_lt (List.mem_of_mem_filter hentry)
        rw [worked.statement running, ← hmatch.statement]
        exact decide_eq_true (Nat.ne_of_lt hlt)
      rw [if_neg Bool.false_ne_true, heq, List.filter_append, hgone, hstays, List.nil_append]
  exact ⟨undone, by rw [hnew]; exact heq, hundone, by rw [hnew]; exact hleft⟩

namespace Table

variable {l l' : Ledger} {c c' : Chronicle} {tid : TableId} {table after : Table} {work : Work}
  {id : Int}

section Undone

variable {txn : Transaction}

/-- What a rollback leaves of the deeds to a row is the first part of what there was. -/
theorem exists_undone (wok : Work.Ok l work) (worked : work.Shows c) (running : work id = some txn)
    (whole : Bool) (other : Int) (row : RowHandle) :
    ∃ undone, c.writes other tid row =
      undone ++ (c.tell (.undone id whole)).writes other tid row := by
  by_cases hother : other = id
  · rw [hother]
    obtain ⟨undone, heq, _, _⟩ := worked.undoing running (wok.txn running) whole tid row
    exact ⟨undone, heq⟩
  · exact ⟨[], by rw [Chronicle.writes_undone, if_neg hother]; rfl⟩

/-- After a rollback a chain spells the deeds that are left. -/
theorem Shows.chains_undone (shows : table.Shows l c tid) (ok : Ok l work tid [] table)
    (lok : l.Ok) (wok : Work.Ok l work) (worked : work.Shows c) (running : work id = some txn)
    (hfits : id < 2 ^ 40) (whole : Bool) {other : Int} {row : RowHandle}
    (hothers : ∀ writer, writer ≠ other → (c.tell (.undone id whole)).writes writer tid row = []) :
    Chain.Shows l ((c.tell (.undone id whole)).writes other tid row ++ c.settled tid row)
      ((table.undoLog tid id (txn.undoing whole)).chainOf row) := by
  have hactive := wok.running running
  have hpos := (lok.active hactive).1
  have hopen : l.committedBy id l.horizon = false :=
    Ledger.not_committedBy (Ledger.not_isCommitted_of_active lok hactive) _
  obtain ⟨undone, heq, hundone, hleft⟩ := worked.undoing running (wok.txn running) whole tid row
  rw [chainOf_undoLog]
  by_cases htouched : rowLog tid row (work.log id) = []
  · -- The row is not one of this transaction's.
    have hnone : c.writes id tid row = [] := (worked.logged id tid row).eq_nil.mp htouched
    rw [Work.log_eq running, txn.log_eq_undoing_append whole, rowLog_append,
      List.append_eq_nil_iff] at htouched
    have hsame : ∀ writer, (c.tell (.undone id whole)).writes writer tid row =
        c.writes writer tid row := by
      intro writer
      by_cases hwriter : writer = id
      · rw [hnone] at heq
        rw [hwriter, hnone, (List.append_eq_nil_iff.mp heq.symm).2]
      · rw [Chronicle.writes_undone, if_neg hwriter]
    rw [htouched.1, hsame]
    exact shows.chains other row fun writer hne => by rw [← hsame]; exact hothers writer hne
  · obtain ⟨hlayered, hfree⟩ := ok.layered htouched
    have hnone : ∀ writer, writer ≠ id → c.writes writer tid row = [] :=
      fun writer hne => (worked.logged writer tid row).eq_nil.mp (hfree writer hne)
    have hleftover : (c.tell (.undone id whole)).writes other tid row =
        (c.tell (.undone id whole)).writes id tid row := by
      by_cases hother : other = id
      · rw [hother]
      · rw [Chronicle.writes_undone, if_neg hother, hnone other hother,
          hothers id (Ne.symm hother)]
    have hchain := shows.chains id row hnone
    rw [heq, List.append_assoc] at hchain
    rw [Work.log_eq running, txn.log_eq_undoing_append whole, rowLog_append] at hlayered
    rw [hleftover]
    exact hchain.undoLog hpos hfits hopen hlayered (ok.tidy row) hundone

/-- After a rollback a table shows what is left. -/
theorem Shows.undone (shows : table.Shows l c tid) (ok : Ok l work tid [] table) (lok : l.Ok)
    (wok : Work.Ok l work) (worked : work.Shows c) (running : work id = some txn)
    (hfits : id < 2 ^ 40) (whole : Bool) :
    (table.undoLog tid id (txn.undoing whole)).Shows l (c.tell (.undone id whole)) tid := by
  obtain ⟨hhandle, hpending, _⟩ := undoLog_rest table tid id (txn.undoing whole)
  have hundone : ∀ other row, ∃ undone, c.writes other tid row =
      undone ++ (c.tell (.undone id whole)).writes other tid row :=
    exists_undone wok worked running whole
  refine ⟨fun {other row} hne => ?_, fun other row deed hdeed => ?_, fun {other s row} hother hne => ?_,
    fun {row s} hin => ?_,
    fun other row => shows.chains_undone ok lok wok worked running hfits whole⟩
  · rw [hhandle]
    obtain ⟨undone, heq⟩ := hundone other row
    have hbefore : c.writes other tid row ++ c.settled tid row ≠ [] := by
      intro hnil
      rw [heq, List.append_assoc] at hnil
      exact hne (List.append_eq_nil_iff.mp hnil).2
    exact shows.born hbefore
  · obtain ⟨undone, heq⟩ := hundone other row
    refine shows.final other row deed ?_
    rw [heq, List.append_assoc]
    cases undone with
    | nil => exact hdeed
    | cons _ undone => exact List.mem_append_right _ (List.mem_of_mem_tail hdeed)
  · obtain ⟨undone, heq⟩ := hundone other row
    refine shows.recent hother fun hnil => hne ?_
    rw [heq] at hnil
    exact (List.append_eq_nil_iff.mp hnil).2
  · rw [hpending] at hin
    exact shows.notes hin

end Undone

/-! ## 3. Commit -/

/-- The deeds to a row after a commit: nothing has changed, or those of the transaction have become
part of what is committed. -/
theorem writes_after_commit (ok : Ok l work tid [] table) (worked : work.Shows c) (id : Int)
    (row : RowHandle) :
    (c.writes id tid row = [] ∧ (c.tell (.committed id)).settled tid row = c.settled tid row ∧
        ∀ other, (c.tell (.committed id)).writes other tid row = c.writes other tid row) ∨
      (c.writes id tid row ≠ [] ∧ (∀ other, other ≠ id → c.writes other tid row = []) ∧
        ∀ other, (c.tell (.committed id)).writes other tid row = []) := by
  by_cases hnone : c.writes id tid row = []
  · refine Or.inl ⟨hnone, by rw [Chronicle.settled_committed, hnone, List.nil_append], fun other => ?_⟩
    rw [Chronicle.writes_committed]
    split
    · rename_i heq
      rw [heq, hnone]
    · rfl
  · have htouched : rowLog tid row (work.log id) ≠ [] :=
      fun h => hnone ((worked.logged id tid row).eq_nil.mp h)
    obtain ⟨_, hfree⟩ := ok.layered htouched
    have hothers : ∀ other, other ≠ id → c.writes other tid row = [] :=
      fun other hne => (worked.logged other tid row).eq_nil.mp (hfree other hne)
    refine Or.inr ⟨hnone, hothers, fun other => ?_⟩
    rw [Chronicle.writes_committed]
    split
    · rfl
    · rename_i hne
      exact hothers other hne

/-- A row that a transaction has marked deleted shows that deletion as the last deed. -/
theorem Shows.deed_of_marked (shows : table.Shows l c tid) (sound : c.Sound) (worked : work.Shows c)
    {row : RowHandle} {statement : Nat} {version : VersionId}
    (hmarked : ⟨statement, tid, .marked row version⟩ ∈ work.log id) :
    ∃ deed earlier, c.writes id tid row ++ c.settled tid row = deed :: earlier ∧
      deed.record? = none ∧ deed.transaction = id := by
  have hentry : (⟨statement, tid, .marked row version⟩ : LogEntry) ∈ rowLog tid row (work.log id) :=
    List.mem_filter.mpr ⟨hmarked, by simp [LogEntry.touches, Write.row?]⟩
  obtain ⟨deed, hdeed, hmatch⟩ := (worked.logged id tid row).flip.exists_of_mem hentry
  have hrecord : deed.record? = none := by
    have hcreates := hmatch.creates
    rw [← Option.isSome_eq_false_iff.trans Option.isNone_iff_eq_none]
    exact hcreates.symm
  have hfinal := shows.final id row
  have hin : deed ∈ c.writes id tid row ++ c.settled tid row := List.mem_append_left _ hdeed
  cases hall : c.writes id tid row ++ c.settled tid row with
  | nil =>
    rw [hall] at hin
    cases hin
  | cons last earlier =>
    rw [hall] at hin hfinal
    rcases List.mem_cons.mp hin with rfl | hin
    · exact ⟨deed, earlier, rfl, hrecord, Chronicle.transaction_of_mem_writes sound hdeed⟩
    · -- Nothing is done to a row after its deletion.
      have hsome := hfinal deed hin
      rw [hrecord] at hsome
      cases hsome

/-- After a commit a table shows what has been committed. -/
theorem Shows.committed (shows : table.Shows l c tid) (ok : Ok l work tid [] table) (lok : l.Ok)
    (attests : l.Attests c) (sound : c.Sound) (worked : work.Shows c) {snapshot : Int}
    (running : l.active[id]? = some snapshot) :
    (table.publishLog tid (l.sequence + 1) (work.log id)).Shows (l.commit id).1
      (c.tell (.committed id)) tid := by
  have grows := Ledger.grows_commit lok running
  have hcommitted : ∀ {other s : Int}, c.CommittedAt other s →
      (c.tell (.committed id)).CommittedAt other s :=
    fun h => Chronicle.committedAt_committed.mpr (Or.inr h)
  obtain ⟨deletes, outdated, htable, hdeletes, _⟩ :=
    publishLog_spec tid (l.sequence + 1) (work.log id) table
  rw [htable]
  refine ⟨fun {other row} hne => ?_, fun other row => ?_, fun {other s row} hother hne => ?_,
    fun {row s} hin => ?_, fun other row hothers => ?_⟩
  · rcases writes_after_commit ok worked id row with ⟨_, hsettled, hwrites⟩ | ⟨hsome, _, _⟩
    · rw [hsettled, hwrites] at hne
      exact shows.born hne
    · have hbefore : c.writes id tid row ++ c.settled tid row ≠ [] :=
        fun hnil => hsome (List.append_eq_nil_iff.mp hnil).1
      exact shows.born hbefore
  · rcases writes_after_commit ok worked id row with ⟨_, hsettled, hwrites⟩ | ⟨_, _, hwrites⟩
    · rw [hsettled, hwrites]
      exact shows.final other row
    · rw [hwrites, List.nil_append, Chronicle.settled_committed]
      exact shows.final id row
  · rcases writes_after_commit ok worked id row with ⟨_, hsettled, hwrites⟩ | ⟨_, _, hwrites⟩
    · have hother' : l.active[other]? = some s := by
        have herase : (l.commit id).1.active = l.active.erase id := rfl
        rw [herase, Maps.get_erase] at hother
        split at hother
        · cases hother
        · exact hother
      rw [hwrites] at hne
      rw [hsettled]
      intro deed hdeed
      obtain ⟨s', hle, hs'⟩ := shows.recent hother' hne deed hdeed
      exact ⟨s', hle, hcommitted hs'⟩
    · exact absurd (hwrites other) hne
  · rcases List.mem_append.mp hin with hin | hin
    · have hfree := (ok.pending hin).2.2 id
      have hnone := (worked.logged id tid row).eq_nil.mp hfree
      obtain ⟨deed, earlier, heq, hrecord, hs⟩ := shows.notes hin
      refine ⟨deed, earlier, ?_, hrecord, hcommitted hs⟩
      rw [Chronicle.settled_committed, hnone]
      exact heq
    · -- A deletion that is committed now is the last deed to its row.
      obtain ⟨hs, statement, version, hmarked⟩ := (hdeletes (row, s)).mp hin
      obtain ⟨deed, earlier, heq, hrecord, hmine⟩ := shows.deed_of_marked sound worked hmarked
      refine ⟨deed, earlier, ?_, hrecord, Chronicle.committedAt_committed.mpr (Or.inl ⟨hmine, ?_⟩)⟩
      · rw [Chronicle.settled_committed]
        exact heq
      · rw [← attests.sequence]
        exact hs
  · rcases writes_after_commit ok worked id row with ⟨_, hsettled, hwrites⟩ | ⟨_, hfree, hwrites⟩
    · rw [hsettled, hwrites]
      refine (shows.chains other row fun writer hne => ?_).grows grows lok
      rw [← hwrites]
      exact hothers writer hne
    · rw [hwrites, List.nil_append, Chronicle.settled_committed]
      exact (shows.chains id row hfree).grows grows lok

/-! ## 4. Reclamation -/

/-- Reclamation drops what nobody reaches. -/
theorem Shows.reclaimed (shows : table.Shows l c tid) (ok : Ok l work tid [] table) (lok : l.Ok)
    (attests : l.Attests c) (worked : work.Shows c) (h : Reclaimed l table after) :
    after.Shows l.prune.1 c tid := by
  refine ⟨fun hne => ?_, shows.final, shows.recent, fun hin => shows.notes (h.pendingDeletes _ hin),
    fun id row hothers => ?_⟩
  · rw [h.rest.nextHandle]
    exact shows.born hne
  · have hchain := shows.chains id row hothers
    refine Chain.Shows.grows ?_ (Ledger.grows_prune lok) lok
    rw [h.chainOf]
    split
    · rename_i hpurged
      obtain ⟨sequence, hnote, hle⟩ := mem_purging.mp hpurged
      obtain ⟨deed, earlier, heq, hrecord, hs⟩ := shows.notes hnote
      have hnone : c.writes id tid row = [] :=
        (worked.logged id tid row).eq_nil.mp ((ok.pending hnote).2.2 id)
      refine hchain.purge ⟨deed, earlier, by rw [hnone, heq, List.nil_append], hrecord, ?_⟩
      rw [attests.committedBy hs (Int.le_refl _)]
      exact decide_eq_true hle
    · rcases truncated_cases table l l.horizon (table.chainOf row) with
        heq | ⟨newest, older, hrow, hmarked, hsettled, heq⟩
      · rw [heq]
        exact hchain
      · rw [heq]
        rw [hrow] at hchain
        exact hchain.truncate hmarked hsettled

end Table
end SnapshotStore
