import Mathlib
import SnapshotStore.Proofs.Upkeep.Entries

/-!
# The books when a transaction ends

What a transaction has bound it no longer answers for when it has committed. Each of its entries is then
that of the last record of the row, or it is among the notes that the commit publishes
(`Accounted.committed`). A rollback takes the entries out with the deeds that they were bound for, and
leaves those of the deeds that stay (`Accounted.undone`).
-/

namespace SnapshotStore

/-- Whoever is running has not committed. -/
theorem Ledger.Attests.not_committedAt {l : Ledger} {c : Chronicle} (attests : l.Attests c)
    {id snapshot : Int} (running : l.active[id]? = some snapshot) (sequence : Int) :
    ¬ c.CommittedAt id sequence := by
  intro hat
  rw [(attests.ended hat).2.2.2] at running
  cases running

/-- A deed that gave no record has marked a version. -/
theorem Work.Shows.exists_marked {work : Work} {c : Chronicle} (worked : work.Shows c) {id : Int}
    {tid : TableId} {row : RowHandle} {deed : Deed} (hdeed : deed ∈ c.writes id tid row)
    (hnone : deed.record? = none) :
    ∃ s version, ⟨s, tid, .marked row version⟩ ∈ work.log id := by
  obtain ⟨⟨s, table, write⟩, hentry, hmatch⟩ := (worked.logged id tid row).exists_of_mem hdeed
  obtain ⟨hin, htouches⟩ := List.mem_filter.mp hentry
  simp only [LogEntry.touches, Bool.and_eq_true, decide_eq_true_eq] at htouches
  obtain ⟨rfl, hrow⟩ := htouches
  have hcreates := hmatch.creates
  rw [hnone] at hcreates
  cases write with
  | created => cases hcreates
  | marked r version =>
    cases hrow
    exact ⟨s, version, hin⟩
  | bound => cases hrow
  | outdated => cases hrow

namespace Table

variable {l : Ledger} {work : Work} {c : Chronicle} {tid : TableId} {table after : Table} {id : Int}
  {i : Nat} {entry : Bytes} {row : RowHandle} {deed : Deed} {later earlier : List Deed}
  {spec : KeySpec} {key : Bytes}

/-! ## 1. Commit -/

/-- A commit has left its notes with the table. -/
structure Published (table : Table) (tid : TableId) (sequence : Int) (log : List LogEntry)
    (after : Table) : Prop where
  rows : after.rows = table.rows
  indexes : after.indexes = table.indexes
  pendingDeletes : ∀ {note : RowHandle × Int}, note ∈ after.pendingDeletes ↔
    note ∈ table.pendingDeletes ∨
      note.2 = sequence ∧ ∃ s version, ⟨s, tid, .marked note.1 version⟩ ∈ log
  outdated : ∀ {note : OutdatedEntry}, note ∈ after.outdated ↔ note ∈ table.outdated ∨
    note.sequence = sequence ∧ ∃ s, ⟨s, tid, .outdated note.index note.entry note.row⟩ ∈ log

theorem published_publishLog (table : Table) (tid : TableId) (sequence : Int)
    (log : List LogEntry) : table.Published tid sequence log (table.publishLog tid sequence log) := by
  obtain ⟨deletes, outdated, htable, hdeletes, houtdated⟩ :=
    publishLog_spec tid sequence log table
  rw [htable]
  refine ⟨rfl, rfl, fun {note} => ?_, fun {note} => ?_⟩
  · rw [← hdeletes note]
    exact List.mem_append
  · rw [← houtdated note]
    exact List.mem_append

section Committed

/-- The transactions that are left when one has ended. -/
theorem mem_log_ended {other : Int} {e : LogEntry} :
    e ∈ Work.log (Function.update work id none) other ↔ other ≠ id ∧ e ∈ work.log other := by
  rw [log_committed]
  split
  · rename_i heq
    simp [heq]
  · rename_i hne
    simp [hne]

variable {snapshot : Int} (h : Accounted l work c tid table) (shows : table.Shows l c tid)
  (lok : l.Ok) (attests : l.Attests c) (sound : c.Sound) (running : l.active[id]? = some snapshot)
  (published : table.Published tid (l.sequence + 1) (work.log id) after)

include attests in
theorem committedAt_next : (c.tell (.committed id)).CommittedAt id (l.sequence + 1) := by
  rw [attests.sequence]
  exact Chronicle.committedAt_committed.mpr (Or.inl ⟨rfl, rfl⟩)

include lok attests running published in
/-- A note in the log goes over to the table. -/
theorem Noted.committed (h : Noted l work c tid table i entry row deed) :
    Noted (l.commit id).1 (Function.update work id none) (c.tell (.committed id)) tid after i entry
      row deed := by
  refine h.goes_on (fun note => ?_)
    (fun hat => Chronicle.committedAt_committed.mpr (Or.inr hat))
    (Ledger.grows_commit lok running).horizon_le
    fun note hnote => Or.inl (published.outdated.mpr (Or.inl hnote))
  by_cases hmine : deed.transaction = id
  · have hat : (c.tell (.committed id)).CommittedAt deed.transaction (l.sequence + 1) := by
      rw [hmine]
      exact committedAt_next attests
    rw [hmine] at note
    exact .waiting hat (published.outdated.mpr (Or.inr ⟨rfl, _, note⟩))
  · exact .logged (mem_log_ended.mpr ⟨hmine, note⟩)

include h shows attests sound running in
/-- A key that a row had before a commit it has afterwards, or the transaction has noted its entry. -/
theorem Accounted.last_of_committed
    (hsplit : c.writes id tid row ++ c.settled tid row = later ++ deed :: earlier)
    (pending : ∀ d ∈ later, d.record?.isSome = true → d ∈ c.writes id tid row)
    (here : table.spec? i = some spec) (gives : deed.Gives spec key) :
    Deed.LastGives ((c.tell (.committed id)).settled tid row) spec key ∨
      ∃ s, ⟨s, tid, .outdated i (Key.entry key row) row⟩ ∈ work.log id := by
  have hfollows := h.follows id row
  have hfinal := shows.final id row
  rw [Chronicle.settled_committed]
  rw [hsplit] at hfollows hfinal ⊢
  refine (exists_noted hfollows hfinal here gives).imp_right ?_
  rintro ⟨d, hd, hsome, hnoted⟩
  have hmine := Chronicle.transaction_of_mem_writes sound (pending d hd hsome)
  cases hnoted with
  | logged note => exact ⟨_, hmine ▸ note⟩
  | waiting committed => exact absurd (hmine ▸ committed) (attests.not_committedAt running _)
  | past committed => exact absurd (hmine ▸ committed) (attests.not_committedAt running _)

include h shows attests sound running published in
/-- What the transaction answered for is last now, or noted. -/
theorem Accounted.covered_committed (hbears : table.Bears i entry row) :
    Covered (Function.update work id none) (c.tell (.committed id)) tid after i entry row := by
  have hspec : after.spec? i = table.spec? i := by
    rw [spec?, published.indexes]
    rfl
  have hover : ∀ {later earlier : List Deed} {deed : Deed} {spec : KeySpec} {key : Bytes},
      c.writes id tid row ++ c.settled tid row = later ++ deed :: earlier →
        (∀ d ∈ later, d.record?.isSome = true → d ∈ c.writes id tid row) →
          table.spec? i = some spec → deed.Gives spec key → entry = Key.entry key row →
            Covered (Function.update work id none) (c.tell (.committed id)) tid after i entry row := by
    intro later earlier deed spec key hsplit hpending here gives hentry
    rcases h.last_of_committed shows attests sound running hsplit hpending here gives with
      hlast | ⟨s, hlogged⟩
    · exact .last (hspec.trans here) hlast hentry
    · rw [← hentry] at hlogged
      exact .outdated (published.outdated.mpr (Or.inr ⟨rfl, s, hlogged⟩))
  cases h.covered hbears with
  | @pending other s bound =>
    by_cases hmine : other = id
    · rw [hmine] at bound
      obtain ⟨spec, key, here, hentry, deed, hdeed, _, gives⟩ := h.bound bound
      obtain ⟨later, earlier, hsplit⟩ := List.append_of_mem hdeed
      have hall : c.writes id tid row ++ c.settled tid row =
          later ++ deed :: (earlier ++ c.settled tid row) := by
        rw [hsplit, List.append_assoc, List.cons_append]
      refine hover hall (fun d hd _ => ?_) here gives hentry
      rw [hsplit]
      exact List.mem_append_left _ hd
    · exact .pending (mem_log_ended.mpr ⟨hmine, bound⟩)
  | last here gives eq =>
    obtain ⟨deed, hfound, gives⟩ := gives
    obtain ⟨_, later, earlier, hsplit, hlater⟩ := List.find?_eq_some_iff_append.mp hfound
    have hall : c.writes id tid row ++ c.settled tid row =
        (c.writes id tid row ++ later) ++ deed :: earlier := by
      rw [hsplit, List.append_assoc]
    refine hover hall (fun d hd hsome => ?_) here gives eq
    refine (List.mem_append.mp hd).resolve_right fun hin => ?_
    have hnot := hlater d hin
    rw [hsome] at hnot
    cases hnot
  | outdated note => exact .outdated (published.outdated.mpr (Or.inl note))

end Committed

/-- A commit keeps the books in order. -/
theorem Accounted.committed {snapshot : Int} (h : Accounted l work c tid table)
    (shows : table.Shows l c tid) (ok : Ok l work tid [] table) (lok : l.Ok) (attests : l.Attests c)
    (worked : work.Shows c) (sound : c.Sound) (running : l.active[id]? = some snapshot)
    (published : table.Published tid (l.sequence + 1) (work.log id) after) :
    Accounted (l.commit id).1 (Function.update work id none) (c.tell (.committed id)) tid after := by
  have hspec : ∀ i, after.spec? i = table.spec? i := by
    intro i
    rw [spec?, published.indexes]
    rfl
  have hchain : ∀ row, after.chainOf row = table.chainOf row := by
    intro row
    rw [chainOf, published.rows]
    rfl
  have hbears : ∀ {i : Nat} {entry : Bytes} {row : RowHandle}, after.Bears i entry row →
      table.Bears i entry row := by
    rintro i entry row ⟨index, hindex, hget⟩
    rw [published.indexes] at hindex
    exact ⟨index, hindex, hget⟩
  have hfollows : ∀ {row : RowHandle} {later earlier : Deed},
      Follows l work c tid table row later earlier → Follows (l.commit id).1
        (Function.update work id none) (c.tell (.committed id)) tid after row later earlier :=
    fun hfollows => hfollows.goes_on (fun here => (hspec _).symm.trans here)
      fun hnoted => hnoted.committed lok attests running published
  refine ⟨fun other row => ?follows, fun {other s i entry row} hin => ?bound,
    fun {other s i entry row} hin => ?logged, fun note hnote => ?outdated,
    fun {row deed earlier} hall hnone hthere => ?deleted, fun hbound => ?linked,
    fun hbound => ?covered⟩
  case follows =>
    rcases writes_after_commit ok worked id row with ⟨_, hsettled, hsame⟩ | ⟨_, _, hnothing⟩
    · rw [hsettled, hsame]
      exact (h.follows other row).imp fun _ _ => hfollows
    · rw [hnothing, List.nil_append, Chronicle.settled_committed]
      exact (h.follows id row).imp fun _ _ => hfollows
  case bound =>
    obtain ⟨hne, hin⟩ := mem_log_ended.mp hin
    obtain ⟨spec, key, here, hentry, deed, hdeed, hs, gives⟩ := h.bound hin
    rw [hspec, Chronicle.writes_committed, if_neg hne]
    exact ⟨spec, key, here, hentry, deed, hdeed, hs, gives⟩
  case logged =>
    obtain ⟨hne, hin⟩ := mem_log_ended.mp hin
    rw [Chronicle.writes_committed, if_neg hne]
    exact h.logged hin
  case outdated =>
    rw [Chronicle.settled_committed]
    rcases published.outdated.mp hnote with hnote | ⟨hsequence, s, hlogged⟩
    · obtain ⟨deed, hdeed, hat⟩ := h.outdated note hnote
      exact ⟨deed, List.mem_append_right _ hdeed, Chronicle.committedAt_committed.mpr (Or.inr hat)⟩
    · obtain ⟨deed, hdeed, _⟩ := h.logged hlogged
      refine ⟨deed, List.mem_append_left _ hdeed, ?_⟩
      rw [Chronicle.transaction_of_mem_writes sound hdeed, hsequence]
      exact committedAt_next attests
  case deleted =>
    rw [Chronicle.settled_committed] at hall
    rw [hchain] at hthere
    cases hown : c.writes id tid row with
    | nil =>
      rw [hown, List.nil_append] at hall
      obtain ⟨sequence, hnote⟩ := h.deleted hall hnone hthere
      exact ⟨sequence, published.pendingDeletes.mpr (Or.inl hnote)⟩
    | cons first rest =>
      rw [hown, List.cons_append] at hall
      obtain ⟨rfl, _⟩ := List.cons.inj hall
      have hfirst : first ∈ c.writes id tid row := by
        rw [hown]
        exact List.mem_cons_self
      obtain ⟨s, version, hmarked⟩ := worked.exists_marked hfirst hnone
      exact ⟨l.sequence + 1, published.pendingDeletes.mpr (Or.inr ⟨rfl, s, version, hmarked⟩)⟩
  case linked =>
    rw [hchain]
    exact h.linked (hbears hbound)
  case covered =>
    exact h.covered_committed shows attests sound running published (hbears hbound)

/-! ## 2. Rollback -/

/-- Undoing a write adds no entry, and takes out the one that it bound. -/
theorem Trees.bears_undo (trees : Trees table) {write : Write}
    (h : (table.undo id write).Bears i entry row) :
    table.Bears i entry row ∧ write ≠ .bound i entry row := by
  obtain ⟨index', hindex', hget⟩ := h
  rw [indexes_undo] at hindex'
  split at hindex'
  · rename_i touched own r
    split at hindex'
    · obtain ⟨index, hindex, rfl⟩ := Option.map_eq_some_iff.mp hindex'
      obtain ⟨_, _, _, hremoved⟩ := Trie.remove_spec (trees.indexes hindex) own r
      refine ⟨⟨index, hindex, ?_⟩, ?_⟩
      · rw [hremoved] at hget
        split at hget
        · cases hget
        · exact hget
      · rintro heq
        cases heq
        exact Trie.get?_remove_ne (trees.indexes hindex) entry row hget
    · rename_i hne
      refine ⟨⟨index', hindex', hget⟩, fun heq => ?_⟩
      cases heq
      exact hne rfl
  · rename_i hnot
    exact ⟨⟨index', hindex', hget⟩, fun heq => hnot _ _ _ heq⟩

theorem Trees.bears_undoLog (trees : Trees table) {log : List LogEntry}
    (h : (table.undoLog tid id log).Bears i entry row) :
    table.Bears i entry row ∧ ∀ s, ⟨s, tid, .bound i entry row⟩ ∉ log := by
  induction log generalizing table with
  | nil => exact ⟨h, fun _ hin => by cases hin⟩
  | cons first log ih =>
    change (Table.undoLog tid id log
      (if first.table = tid then table.undo id first.write else table)).Bears i entry row at h
    by_cases htable : first.table = tid
    · rw [if_pos htable] at h
      obtain ⟨hbears, hrest⟩ := ih (trees.undo id first.write) h
      obtain ⟨hbefore, hne⟩ := trees.bears_undo hbears
      refine ⟨hbefore, fun s hin => ?_⟩
      rcases List.mem_cons.mp hin with rfl | hin
      · exact hne rfl
      · exact hrest s hin
    · rw [if_neg htable] at h
      obtain ⟨hbefore, hrest⟩ := ih trees h
      refine ⟨hbefore, fun s hin => ?_⟩
      rcases List.mem_cons.mp hin with rfl | hin
      · exact htable rfl
      · exact hrest s hin

theorem spec?_undoLog (table : Table) (tid : TableId) (id : Int) (log : List LogEntry) (i : Nat) :
    (table.undoLog tid id log).spec? i = table.spec? i := by
  induction log generalizing table with
  | nil => rfl
  | cons first log ih =>
    change (Table.undoLog tid id log
      (if first.table = tid then table.undo id first.write else table)).spec? i = _
    rw [ih]
    split
    · exact spec?_eq (length_indexes_undo ..) (exists_index_undo table id first.write) i
    · rfl

/-- Whoever writes to a row has not found it deleted. -/
theorem Shows.settled_records (shows : table.Shows l c tid) (hne : c.writes id tid row ≠ []) :
    ∀ deed ∈ c.settled tid row, deed.record?.isSome = true := by
  intro deed hdeed
  refine shows.final id row deed ?_
  cases hown : c.writes id tid row with
  | nil => exact absurd hown hne
  | cons _ rest => exact List.mem_append_right _ hdeed

section Undone

variable {txn : Transaction} {whole : Bool} (wok : Work.Ok l work) (worked : work.Shows c)
  (running : work id = some txn)

/-- A deed that is not taken back keeps what the log says of its statement. -/
theorem mem_remaining (worked : work.Shows c) (running : work id = some txn)
    (hdeed : deed ∈ (c.tell (.undone id whole)).writes id tid row) {write : Write}
    (hin : ⟨deed.statement, tid, write⟩ ∈ work.log id) :
    ⟨deed.statement, tid, write⟩ ∈ txn.remaining whole := by
  rw [Chronicle.writes_undone, if_pos rfl] at hdeed
  rw [Work.log_eq running, txn.log_eq_undoing_append whole] at hin
  refine (List.mem_append.mp hin).resolve_left fun hundone => ?_
  cases whole with
  | true => cases hdeed
  | false =>
    have hnow := Transaction.statement_of_mem_currentWrites hundone
    have hnot := of_decide_eq_true (List.mem_filter.mp hdeed).2
    rw [worked.statement running] at hnot
    exact hnot hnow

include wok worked running in
/-- A deed stays while the log says anything of its statement. -/
theorem mem_writes_undone {other : Int} {write : Write}
    (hin : ⟨deed.statement, tid, write⟩ ∈ (dropped work id txn (txn.remaining whole)).log other)
    (hdeed : deed ∈ c.writes other tid row) :
    deed ∈ (c.tell (.undone id whole)).writes other tid row := by
  rw [Chronicle.writes_undone]
  by_cases hother : other = id
  · rw [log_dropped, if_pos hother] at hin
    rw [if_pos hother]
    rw [hother] at hdeed
    cases whole with
    | true => cases hin
    | false =>
      have hlt := (wok.txn running).statement_lt hin
      refine List.mem_filter.mpr ⟨hdeed, decide_eq_true ?_⟩
      rw [worked.statement running]
      exact Nat.ne_of_lt hlt
  · rw [if_neg hother]
    exact hdeed

/-- What the logs still say they said before. -/
theorem mem_log_before {other : Int} {e : LogEntry} (running : work id = some txn)
    (hin : e ∈ (dropped work id txn (txn.remaining whole)).log other) : e ∈ work.log other := by
  rw [log_dropped] at hin
  split at hin
  · rename_i heq
    rw [heq, Work.log_eq running, txn.log_eq_undoing_append whole]
    exact List.mem_append_right _ hin
  · exact hin

/-- What a log said before it says still, unless it was undone. -/
theorem mem_log_after {other : Int} {e : LogEntry} (running : work id = some txn)
    (hin : e ∈ work.log other) (hnot : e ∉ txn.undoing whole) :
    e ∈ (dropped work id txn (txn.remaining whole)).log other := by
  rw [log_dropped]
  split
  · rename_i heq
    rw [heq, Work.log_eq running, txn.log_eq_undoing_append whole] at hin
    exact (List.mem_append.mp hin).resolve_left hnot
  · exact hin

variable (h : Accounted l work c tid table) (shows : table.Shows l c tid)
  (ok : Ok l work tid [] table) (lok : l.Ok) (attests : l.Attests c) (sound : c.Sound)

include wok worked running h attests sound in
/-- What was noted of the deeds that stay is noted still. -/
theorem Accounted.follows_undone (other : Int) (row : RowHandle) :
    ((c.tell (.undone id whole)).writes other tid row ++
      (c.tell (.undone id whole)).settled tid row).IsChain
        (Follows l (dropped work id txn (txn.remaining whole)) (c.tell (.undone id whole)) tid
          (table.undoLog tid id (txn.undoing whole)) row) := by
  have hactive := wok.running running
  have hsettled : (c.tell (.undone id whole)).settled tid row = c.settled tid row := rfl
  obtain ⟨undone, heq⟩ := exists_undone wok worked running whole other row
  have hfollows := h.follows other row
  rw [heq, List.append_assoc] at hfollows
  rw [hsettled]
  refine hfollows.right_of_append.imp_of_mem_imp fun later earlier hlater _ hpair => ?_
  refine hpair.goes_on (fun here => (spec?_undoLog ..).symm.trans here) fun hnoted => ?_
  obtain ⟨_, _, houtdated⟩ := undoLog_rest table tid id (txn.undoing whole)
  refine hnoted.goes_on (fun note => ?_) (fun hat => hat) (Int.le_refl _)
    fun note hnote => Or.inl (houtdated ▸ hnote)
  refine .logged ?_
  rw [log_dropped]
  split
  · rename_i hmine
    rw [hmine] at note
    have hkept : later ∈ (c.tell (.undone id whole)).writes id tid row := by
      rcases List.mem_append.mp hlater with hlater | hlater
      · rw [Chronicle.transaction_of_mem_writes (sound.tell _) hlater] at hmine
        exact hmine ▸ hlater
      · obtain ⟨s, hat⟩ := Chronicle.committedAt_of_mem_settled sound hlater
        exact absurd (hmine ▸ hat) (attests.not_committedAt hactive s)
    exact mem_remaining worked running hkept note
  · exact note

include h ok running in
/-- An entry that is left has not been bound by what was undone. -/
theorem Accounted.covered_undone
    (hbears : (table.undoLog tid id (txn.undoing whole)).Bears i entry row) :
    Covered (dropped work id txn (txn.remaining whole)) (c.tell (.undone id whole)) tid
      (table.undoLog tid id (txn.undoing whole)) i entry row := by
  obtain ⟨hbefore, hnot⟩ := ok.trees.bears_undoLog hbears
  obtain ⟨_, _, houtdated⟩ := undoLog_rest table tid id (txn.undoing whole)
  cases h.covered hbefore with
  | pending bound => exact .pending (mem_log_after running bound (hnot _))
  | last here gives eq => exact .last ((spec?_undoLog ..).trans here) gives eq
  | outdated note => exact .outdated (houtdated ▸ note)

include wok worked running h ok in
/-- Deeds are left to a row that still has an entry: those that the entry is of. -/
theorem Accounted.deeds_remain (hothers : ∀ other, other ≠ id → c.writes other tid row = [])
    (hbears : (table.undoLog tid id (txn.undoing whole)).Bears i entry row) :
    (c.tell (.undone id whole)).writes id tid row ++ c.settled tid row ≠ [] := by
  obtain ⟨hbefore, hnot⟩ := ok.trees.bears_undoLog hbears
  cases h.covered hbefore with
  | @pending other s bound =>
    obtain ⟨_, _, _, _, deed, hdeed, rfl, _⟩ := h.bound bound
    by_cases hother : other = id
    · rw [hother] at bound hdeed
      have hin := mem_writes_undone wok worked running (mem_log_after running bound (hnot _)) hdeed
      exact List.ne_nil_of_mem (List.mem_append_left _ hin)
    · rw [hothers other hother] at hdeed
      cases hdeed
  | last _ gives _ => exact List.append_ne_nil_of_right_ne_nil _ gives.ne_nil
  | outdated note =>
    obtain ⟨deed, hdeed, _⟩ := h.outdated _ note
    exact List.ne_nil_of_mem (List.mem_append_right _ hdeed)

include wok worked running h shows ok lok sound in
/-- A row that still has an entry is not undone altogether. -/
theorem Accounted.linked_undone (hfits : id < 2 ^ 40)
    (hbears : (table.undoLog tid id (txn.undoing whole)).Bears i entry row) :
    (table.undoLog tid id (txn.undoing whole)).chainOf row ≠ [] := by
  by_cases htouched : rowLog tid row (work.log id) = []
  · obtain ⟨hbefore, _⟩ := ok.trees.bears_undoLog hbears
    rw [Work.log_eq running, txn.log_eq_undoing_append whole, rowLog_append,
      List.append_eq_nil_iff] at htouched
    rw [chainOf_undoLog, htouched.1]
    exact h.linked hbefore
  · obtain ⟨_, hfree⟩ := ok.layered htouched
    have hothers : ∀ other, other ≠ id → c.writes other tid row = [] :=
      fun other hne => (worked.logged other tid row).eq_nil.mp (hfree other hne)
    have hrecords := shows.settled_records fun hnone =>
      htouched ((worked.logged id tid row).eq_nil.mpr hnone)
    have hchain := (shows.undone ok lok wok worked running hfits whole).chains id row fun other hne => by
      rw [Chronicle.writes_undone, if_neg hne]
      exact hothers other hne
    change Chain.Shows l ((c.tell (.undone id whole)).writes id tid row ++ c.settled tid row) _
      at hchain
    obtain ⟨last, earlier, hall⟩ :=
      List.exists_cons_of_ne_nil (h.deeds_remain wok worked running ok hothers hbears)
    rw [hall] at hchain
    have hlast : last ∈ (c.tell (.undone id whole)).writes id tid row ++ c.settled tid row := by
      rw [hall]
      exact List.mem_cons_self
    -- The last of them has a version: it is pending, or it has given a record.
    obtain ⟨newest, older, hthere⟩ := hchain.exists_newest fun hnone => by
      rcases List.mem_append.mp hlast with hlast | hlast
      · rw [Chronicle.transaction_of_mem_writes (sound.tell _) hlast]
        exact Ledger.not_committedBy
          (Ledger.not_isCommitted_of_active lok (wok.running running)) _
      · have hsome := hrecords last hlast
        rw [hnone] at hsome
        cases hsome
    rw [hthere]
    exact List.cons_ne_nil _ _

include wok worked running h shows ok lok attests sound in
/-- A rollback keeps the books in order. -/
theorem Accounted.undone (hfits : id < 2 ^ 40) :
    Accounted l (dropped work id txn (txn.remaining whole)) (c.tell (.undone id whole)) tid
      (table.undoLog tid id (txn.undoing whole)) := by
  obtain ⟨_, hpending, houtdated⟩ := undoLog_rest table tid id (txn.undoing whole)
  refine ⟨h.follows_undone wok worked running attests sound,
    fun {other s i entry row} hin => ?bound, fun {other s i entry row} hin => ?logged,
    fun note hnote => ?outdated, fun {row deed earlier} hall hnone hthere => ?deleted,
    h.linked_undone wok worked running shows ok lok sound hfits, h.covered_undone running ok⟩
  case bound =>
    obtain ⟨spec, key, here, hentry, deed, hdeed, rfl, gives⟩ := h.bound (mem_log_before running hin)
    exact ⟨spec, key, (spec?_undoLog ..).trans here, hentry, deed,
      mem_writes_undone wok worked running hin hdeed, rfl, gives⟩
  case logged =>
    obtain ⟨deed, hdeed, rfl⟩ := h.logged (mem_log_before running hin)
    exact ⟨deed, mem_writes_undone wok worked running hin hdeed, rfl⟩
  case outdated =>
    rw [houtdated] at hnote
    exact h.outdated note hnote
  case deleted =>
    rw [hpending]
    change c.settled tid row = deed :: earlier at hall
    have hidle : c.writes id tid row = [] := by
      by_contra hne
      have hsome := shows.settled_records hne deed (by rw [hall]; exact List.mem_cons_self)
      rw [hnone] at hsome
      cases hsome
    have hlog := (worked.logged id tid row).eq_nil.mpr hidle
    rw [Work.log_eq running, txn.log_eq_undoing_append whole, rowLog_append,
      List.append_eq_nil_iff] at hlog
    rw [chainOf_undoLog, hlog.1] at hthere
    exact h.deleted hall hnone hthere

end Undone

end Table
end SnapshotStore
