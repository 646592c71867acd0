import Mathlib
import SnapshotStore.Proofs.Table.Ok

/-!
# Undoing keeps a table in order

Undoing the last write of a running transaction keeps `Table.Ok`, with the write taken off the log
(`Ok.undo`). That the writes come off in order is what the proof is about. A version goes while it is
the top layer of its row. An entry goes while every version that carries its key is excused: such a
version was written in the same statement or a later one, and rollbacks undo whole statements.
-/

namespace SnapshotStore

open Chain

variable {l l' : Ledger} {work work' : Work} {tid : TableId} {undoing : List LogEntry}
  {table : Table}

/-! ## 1. The passing of time -/

theorem Chain.Layered.grows {id : Int} {log : List LogEntry} {chain : Chain}
    (h : Layered l id log chain) (grows : Ledger.Grows l l') (lok : l.Ok) :
    Layered l' id log chain := by
  induction log generalizing chain with
  | nil => exact fun v hv => grows.isCommitted lok (h v hv)
  | cons entry log ih =>
    obtain ⟨s, table, write⟩ := entry
    cases write with
    | created row version isNewRow =>
      obtain ⟨v, older, hchain, hid, hcreated, hnew, hrest⟩ := layered_created.mp h
      exact layered_created.mpr ⟨v, older, hchain, hid, hcreated, hnew, ih hrest⟩
    | marked row version =>
      obtain ⟨v, older, hchain, hid, hunmarked, hpos, hrest⟩ := layered_marked.mp h
      exact layered_marked.mpr ⟨v, older, hchain, hid, hunmarked, hpos, ih hrest⟩
    | bound => exact h.elim
    | outdated => exact h.elim

theorem IndexOk.grows {index : Index} (h : IndexOk l table tid undoing index)
    (grows : Ledger.Grows l l') (lok : l.Ok) : IndexOk l' table tid undoing index where
  tree := h.tree
  sound := h.sound
  keyed := h.keyed
  complete hv hkey := h.complete (mem_reach_of_grows grows lok hv) hkey

namespace Table

/-- A table stays in order while the ledger goes on and the logs stay. -/
theorem Ok.grows (ok : Ok l work tid undoing table) (grows : Ledger.Grows l l') (lok : l.Ok)
    (hlog : ∀ id, work'.log id = work.log id) : Ok l' work' tid undoing table where
  occupied := ok.occupied
  tidy := ok.tidy
  serials := ok.serials
  handles := ok.handles
  held row := by
    obtain ⟨id, hlayered, hothers⟩ := ok.held row
    refine ⟨id, ?_, fun other hne => ?_⟩
    · rw [hlog]
      exact hlayered.grows grows lok
    · rw [hlog]
      exact hothers other hne
  primaryTree := ok.primaryTree
  primary := ok.primary
  indexes h := (ok.indexes h).grows grows lok
  bound {id s i entry row} h := by
    rw [hlog] at h ⊢
    obtain ⟨index, hindex, hcarriers⟩ := ok.bound h
    exact ⟨index, hindex, fun v hv => hcarriers v (mem_reach_of_grows grows lok hv)⟩
  pending h := by
    obtain ⟨hlt, hmarked, hfree⟩ := ok.pending h
    exact ⟨hlt, hmarked, fun id => by rw [hlog]; exact hfree id⟩

/-! ## 2. One write -/

theorem rowLog_cons (row : RowHandle) (entry : LogEntry) (log : List LogEntry) :
    rowLog tid row (entry :: log) =
      if entry.touches tid row then entry :: rowLog tid row log else rowLog tid row log := by
  rw [rowLog, List.filter_cons]
  rfl

/-- A transaction that runs has not committed, so a version it created is not settled. -/
theorem not_settled (lok : l.Ok) {id snapshot : Int} (running : l.active[id]? = some snapshot)
    {s : Nat} {v : Version} (hcreated : v.created = .of id s) (bound : Int) :
    l.committedBy v.created.transaction bound = false := by
  have hnot := Ledger.not_isCommitted_of_active lok running
  by_contra hne
  have hcommitted := Ledger.isCommitted_of_committedBy (Bool.not_eq_false _ ▸ hne)
  rw [hcreated] at hcommitted
  change l.isCommitted id = true at hcommitted
  rw [hnot] at hcommitted
  cases hcommitted

/-- What is in reach after an undo was in reach before, but for its mark. -/
theorem exists_mem_reach_of_undo (lok : l.Ok) {id snapshot : Int}
    (running : l.active[id]? = some snapshot) {entry : LogEntry} {log : List LogEntry}
    {chain : Chain} (layered : Layered l id (entry :: log) chain) (tidy : Tidy chain)
    {horizon : Int} {v : Version} (h : v ∈ reach l horizon (chain.undo id entry.write)) :
    ∃ w ∈ reach l horizon chain, v.id = w.id ∧ v.record = w.record := by
  obtain ⟨s, table, write⟩ := entry
  cases write with
  | created row version isNewRow =>
    obtain ⟨w, older, rfl, hid, hcreated, _, _⟩ := layered_created.mp layered
    have hopen := not_settled lok running hcreated horizon
    rw [Chain.undo] at h
    split at h
    · cases h
    · rw [Chain.unlink, if_pos hid] at h
      exact ⟨v, mem_reach_cons.mpr (Or.inr ⟨hopen, h⟩), rfl, rfl⟩
  | marked row version =>
    obtain ⟨w, older, rfl, hid, _, _, _⟩ := layered_marked.mp layered
    have hmarked : (w.mark (.of id s)).id = version := by rw [Version.id_mark, hid]
    rw [Chain.undo, ← hmarked, tidy.change_cons, mem_reach_cons, Version.created_unmark] at h
    rcases h with rfl | ⟨hopen, hmem⟩
    · exact ⟨_, newest_mem_reach _ _ _ _, Version.id_unmark _ _, Version.record_unmark _ _⟩
    · exact ⟨v, mem_reach_cons.mpr (Or.inr ⟨hopen, hmem⟩), rfl, rfl⟩
  | bound => exact layered.elim
  | outdated => exact layered.elim

/-- The version whose creation is undone is gone. -/
theorem id_ne_of_mem_undo_created {id : Int} {s : Nat} {row : RowHandle} {version : VersionId}
    {isNewRow : Bool} {log : List LogEntry} {chain : Chain}
    (layered : Layered l id (⟨s, tid, .created row version isNewRow⟩ :: log) chain)
    (tidy : Tidy chain) {v : Version}
    (h : v ∈ chain.undo id (.created row version isNewRow)) : v.id ≠ version := by
  obtain ⟨w, older, rfl, hid, _, _, _⟩ := layered_created.mp layered
  rw [Chain.undo] at h
  split at h
  · cases h
  · rw [Chain.unlink, if_pos hid] at h
    intro heq
    have hnodup := tidy.distinct
    rw [List.map_cons, List.nodup_cons] at hnodup
    exact hnodup.1 (List.mem_map.mpr ⟨v, h, by rw [heq, hid]⟩)

/-- Only undoing the beginning of a row leaves it without versions. -/
theorem undo_ne_nil {id : Int} {entry : LogEntry} {row : RowHandle} {log : List LogEntry}
    {chain : Chain} (layered : Layered l id (entry :: log) chain) (hrow : entry.write.row? = some row)
    (hnew : ∀ version, entry.write ≠ .created row version true) :
    chain.undo id entry.write ≠ [] := by
  obtain ⟨s, table, write⟩ := entry
  cases write with
  | created touched version isNewRow =>
    obtain ⟨w, older, rfl, hid, _, hisNew, _⟩ := layered_created.mp layered
    cases hrow
    cases isNewRow with
    | true => exact absurd rfl (hnew version)
    | false =>
      rw [Chain.undo, if_neg Bool.false_ne_true, Chain.unlink, if_pos hid]
      intro hnil
      exact Bool.false_ne_true (hisNew.mpr hnil)
  | marked touched version =>
    obtain ⟨w, older, rfl, _⟩ := layered_marked.mp layered
    exact List.cons_ne_nil _ _
  | bound => exact layered.elim
  | outdated => exact layered.elim

/-- A write that is being undone is on top of the log of a running transaction; what is undone with
it lies below, and then what stays, which is of earlier statements. -/
structure Undoing (l : Ledger) (work : Work) (id : Int) (entry : LogEntry)
    (undoing earlier : List LogEntry) : Prop where
  lok : l.Ok
  running : ∃ snapshot, l.active[id]? = some snapshot
  log : work.log id = entry :: (undoing ++ earlier)
  backed : Backed (work.log id)
  before : ∀ e ∈ earlier, e.statement < entry.statement

/-- An index has its number and its specification after an undo. -/
theorem exists_index_undo (table : Table) (id : Int) (write : Write) {i : Nat} {index : Index}
    (h : table.indexes[i]? = some index) :
    ∃ new, (table.undo id write).indexes[i]? = some new ∧ new.spec = index.spec := by
  rw [indexes_undo]
  split
  · rw [h]
    split
    · exact ⟨_, rfl, rfl⟩
    · exact ⟨index, rfl, rfl⟩
  · exact ⟨index, h, rfl⟩

/-- Of what an index finds after an undo, only the entry that the undone write bound is missing. -/
theorem exists_index_of_undo {id : Int} {write : Write} {undoing : List LogEntry}
    (ok : ∀ {i : Nat} {index : Index}, table.indexes[i]? = some index →
      IndexOk l table tid undoing index)
    {i : Nat} {index : Index} (h : (table.undo id write).indexes[i]? = some index) :
    ∃ old, table.indexes[i]? = some old ∧ index.spec = old.spec ∧ index.trie.pool.IsTree ∧
      ∀ key row, index.trie.get? key = some row ↔
        old.trie.get? key = some row ∧ write ≠ .bound i key row := by
  rw [indexes_undo] at h
  split at h
  · rename_i touched entry bound
    split at h
    · rename_i hi
      obtain ⟨old, hold, rfl⟩ := Option.map_eq_some_iff.mp h
      obtain ⟨htree, _, _, hget⟩ := Trie.remove_spec (ok hold).tree entry bound
      refine ⟨old, hold, rfl, htree, fun key row => ?_⟩
      rw [hget, hi]
      split
      · rename_i hgone
        simp only [reduceCtorEq, false_iff, not_and, not_not]
        intro hrow
        rw [hgone.1, hgone.2] at hrow
        rw [hgone.1, Option.some.inj hrow]
      · rename_i hstays
        refine (and_iff_left_of_imp ?_).symm
        rintro hrow heq
        cases heq
        exact hstays ⟨rfl, hrow⟩
    · rename_i hi
      refine ⟨index, h, rfl, (ok h).tree, fun key row => (and_iff_left ?_).symm⟩
      intro heq
      cases heq
      exact hi rfl
  · rename_i hnot
    refine ⟨index, h, rfl, (ok h).tree, fun key row => (and_iff_left ?_).symm⟩
    intro heq
    exact hnot _ _ _ heq

/-- What an undo leaves in a chain was there before, but for its mark. -/
theorem exists_of_mem_undone {id : Int} {write : Write} {row : RowHandle} {v : Version}
    (h : v ∈ (table.undo id write).chainOf row) :
    ∃ w ∈ table.chainOf row, v.id = w.id ∧ v.record = w.record := by
  rw [chainOf_undo] at h
  split at h
  · obtain ⟨w, hw, hid, hrecord, _⟩ := exists_of_mem_undo h
    exact ⟨w, hw, hid, hrecord⟩
  · exact ⟨v, h, rfl, rfl⟩

section Undo

variable {id : Int} {entry : LogEntry} {earlier : List LogEntry} {txn : Transaction}

/-- The running transactions once the write is off the log. -/
def dropped (work : Work) (id : Int) (txn : Transaction) (log : List LogEntry) : Work :=
  Function.update work id (some { txn with log })

theorem log_dropped (work : Work) (id : Int) (txn : Transaction) (log : List LogEntry)
    (other : Int) : (dropped work id txn log).log other =
      if other = id then log else work.log other :=
  Work.log_update work id other _

section Logs

variable (u : Undoing l work id entry undoing earlier) (txn)
include u

theorem Undoing.mem_log {other : Int} {e : LogEntry}
    (h : e ∈ (dropped work id txn (undoing ++ earlier)).log other) : e ∈ work.log other := by
  rw [log_dropped] at h
  split at h
  · rename_i heq
    rw [heq, u.log]
    exact List.mem_cons_of_mem _ h
  · exact h

/-- The write of a chain is off the log of its row, and off no other. -/
theorem Undoing.touched {row : RowHandle} (hrow : entry.write.row? = some row) :
    Touched tid row id (rowLog tid row (undoing ++ earlier)) work
      (dropped work id txn (undoing ++ earlier)) table (table.undo id entry.write) := by
  refine ⟨fun r other => ?_, fun r hne => ?_⟩
  · rw [log_dropped]
    by_cases heq : other = id
    · rw [if_pos heq, heq]
      by_cases hr : r = row
      · rw [if_pos ⟨rfl, hr⟩, hr]
      · rw [if_neg (fun h => hr h.2), u.log, rowLog_cons, if_neg]
        simp [LogEntry.touches, hrow, Ne.symm hr]
    · rw [if_neg heq, if_neg (fun h => heq h.1)]
  · rw [chainOf_undo, hrow, if_neg (by simpa using Ne.symm hne)]

/-- The logs of the other rows stay. -/
theorem Undoing.rowLog_eq {row : RowHandle} (h : entry.touches tid row = false) (other : Int) :
    rowLog tid row ((dropped work id txn (undoing ++ earlier)).log other) =
      rowLog tid row (work.log other) := by
  rw [log_dropped]
  split
  · rename_i heq
    rw [heq, u.log, rowLog_cons, h]
    rfl
  · rfl

end Logs

variable (ok : Ok l work tid (entry :: undoing) table)
  (u : Undoing l work id entry undoing earlier) (txn)
include ok u

/-- A write to another table. -/
theorem Ok.undo_elsewhere (h : entry.table ≠ tid) :
    Ok l (dropped work id txn (undoing ++ earlier)) tid undoing table := by
  have hother : ∀ {e : LogEntry}, e.table = tid → e ∈ entry :: (undoing ++ earlier) →
      e ∈ undoing ++ earlier := by
    intro e he hmem
    rcases List.mem_cons.mp hmem with rfl | hmem
    · exact absurd he h
    · exact hmem
  have hrow : ∀ row other, rowLog tid row ((dropped work id txn (undoing ++ earlier)).log other) =
      rowLog tid row (work.log other) :=
    fun row => u.rowLog_eq txn (by simp [LogEntry.touches, h])
  refine ⟨ok.occupied, ok.tidy, ok.serials, ok.handles, ?_, ok.primaryTree, ok.primary, ?_, ?_, ?_⟩
  · intro row
    obtain ⟨holder, hlayered, hothers⟩ := ok.held row
    refine ⟨holder, by rw [hrow]; exact hlayered, fun other hne => by rw [hrow]; exact hothers other hne⟩
  · intro i index hindex
    have hok := ok.indexes hindex
    refine ⟨hok.tree, hok.sound, hok.keyed, fun hv hkey => ?_⟩
    refine (hok.complete hv hkey).imp_right ?_
    rintro ⟨s, isNewRow, hmem⟩
    rcases List.mem_cons.mp hmem with rfl | hmem
    · exact absurd rfl h
    · exact ⟨s, isNewRow, hmem⟩
  · intro other s i key row hmem
    obtain ⟨index, hindex, hcarriers⟩ := ok.bound (u.mem_log txn hmem)
    refine ⟨index, hindex, fun v hv k hkey hentry => ?_⟩
    obtain ⟨s', isNewRow, hle, hcreated⟩ := hcarriers v hv k hkey hentry
    refine ⟨s', isNewRow, hle, ?_⟩
    rw [log_dropped]
    split
    · rename_i heq
      rw [heq, u.log] at hcreated
      exact hother rfl hcreated
    · exact hcreated
  · intro row sequence hmem
    obtain ⟨hlt, hmarked, hfree⟩ := ok.pending hmem
    exact ⟨hlt, hmarked, fun other => by rw [hrow]; exact hfree other⟩

omit u in
/-- The primary structure loses a row with the undone write that began it. -/
theorem Ok.primary_undo_spec (id : Int) (write : Write) :
    (table.undo id write).primary.pool.IsTree ∧ ∀ {key : Bytes} {row : RowHandle},
      (table.undo id write).primary.get? key = some row ↔
        key = row.toBytes ∧ ((table.undo id write).rows[row]?).isSome = true := by
  have hrows : ∀ row, ((table.undo id write).rows[row]?).isSome = true ↔
      (table.rows[row]?).isSome = true ∧ ∀ version, write ≠ .created row version true :=
    rows_undo_isSome table id write
  have hprimary := primary_undo table id write
  split at hprimary
  · rename_i began version
    obtain ⟨htree, _, _, hget⟩ := Trie.remove_spec ok.primaryTree began.toBytes began
    rw [hprimary]
    refine ⟨htree, fun {key row} => ?_⟩
    have hnew : (∀ v, Write.created began version true ≠ .created row v true) ↔ row ≠ began := by
      constructor
      · rintro h rfl
        exact h version rfl
      · rintro hne v heq
        cases heq
        exact hne rfl
    rw [hget, hrows, hnew]
    split
    · rename_i hgone
      constructor
      · intro h
        cases h
      · rintro ⟨hkey, _, hne⟩
        rw [hgone.1] at hkey
        exact absurd (RowHandle.toBytes_injective hkey).symm hne
    · rename_i hstays
      rw [ok.primary]
      constructor
      · rintro ⟨hkey, hsome⟩
        refine ⟨hkey, hsome, ?_⟩
        rintro rfl
        exact hstays ⟨hkey, ok.primary.mpr ⟨rfl, hsome⟩⟩
      · rintro ⟨hkey, hsome, _⟩
        exact ⟨hkey, hsome⟩
  · rename_i hnot
    rw [hprimary]
    refine ⟨ok.primaryTree, fun {key row} => ?_⟩
    rw [hrows, ok.primary]
    have hnew : ∀ v, write ≠ .created row v true := by
      rintro v rfl
      exact hnot _ _ rfl
    simp only [hnew, ne_eq, not_false_eq_true, implies_true, and_true]

/-! ## 3. A write to the table itself -/

section Here

variable (htable : entry.table = tid)
include htable

/-- What a transaction has touched it holds, with the write that is undone on top. -/
theorem Ok.layered_undone {row : RowHandle} (hrow : entry.write.row? = some row) :
    Layered l id (entry :: rowLog tid row (undoing ++ earlier)) (table.chainOf row) ∧
      ∀ other, other ≠ id → rowLog tid row (work.log other) = [] := by
  have hlog : rowLog tid row (work.log id) = entry :: rowLog tid row (undoing ++ earlier) := by
    rw [u.log, rowLog_cons, if_pos (by simp [LogEntry.touches, htable, hrow])]
  have htouched : rowLog tid row (work.log id) ≠ [] := by
    rw [hlog]
    exact List.cons_ne_nil _ _
  rw [← hlog]
  exact ok.layered htouched

/-- Where a version stands, its creation is not the write that is undone. -/
theorem Ok.created_ne_undone {row : RowHandle} {v : Version} {s : Nat} {isNewRow : Bool}
    (h : v ∈ (table.undo id entry.write).chainOf row) :
    (⟨s, tid, .created row v.id isNewRow⟩ : LogEntry) ≠ entry := by
  rintro rfl
  have hlayered := (ok.layered_undone u htable rfl).1
  rw [chainOf_undo, Write.row?, if_pos rfl] at h
  exact id_ne_of_mem_undo_created hlayered (ok.tidy row) h rfl

theorem Ok.exists_mem_reach_undone {row : RowHandle} {v : Version}
    (h : v ∈ reach l l.horizon ((table.undo id entry.write).chainOf row)) :
    ∃ w ∈ reach l l.horizon (table.chainOf row), v.id = w.id ∧ v.record = w.record := by
  obtain ⟨snapshot, running⟩ := u.running
  rw [chainOf_undo] at h
  split at h
  · rename_i hrow
    exact exists_mem_reach_of_undo u.lok running (ok.layered_undone u htable hrow).1 (ok.tidy row) h
  · exact ⟨v, h, rfl, rfl⟩

/-- An entry that goes is carried only by what is undone with it, so every other version in reach keeps
its entry. -/
theorem Ok.indexOk_undone {i : Nat} {index : Index}
    (h : (table.undo id entry.write).indexes[i]? = some index) :
    IndexOk l (table.undo id entry.write) tid undoing index := by
  obtain ⟨old, hold, hspec, htree, hget⟩ := exists_index_of_undo ok.indexes h
  have hok := ok.indexes hold
  obtain ⟨_, _, _, _, hlimit⟩ := undo_rest table id entry.write
  refine ⟨htree, fun {key row} hbound => ?_, fun {row v} hv => ?_, fun {row v key} hv hkey => ?_⟩
  · exact hok.sound ((hget key row).mp hbound).1
  · obtain ⟨w, hw, _, hrecord⟩ := exists_of_mem_undone hv
    rw [hlimit, hspec, hrecord]
    exact hok.keyed hw
  · have hkept : ∀ s isNewRow, (⟨s, tid, .created row v.id isNewRow⟩ : LogEntry) ≠ entry :=
      fun _ _ => ok.created_ne_undone u htable (mem_of_mem_reach hv)
    obtain ⟨w, hw, hid, hrecord⟩ := ok.exists_mem_reach_undone u htable hv
    rw [hlimit, hspec, hrecord] at hkey
    rcases hok.complete hw hkey with hbound | ⟨s, isNewRow, hin⟩
    · by_cases hgone : entry.write = .bound i (Key.entry key row) row
      · -- The version loses its entry, so it was created in the statement that is being undone or
        -- later, and what stays of the log is of earlier ones.
        have hin : (⟨entry.statement, tid, .bound i (Key.entry key row) row⟩ : LogEntry) ∈
            work.log id := by
          rw [u.log, ← hgone, ← htable]
          exact List.mem_cons_self
        obtain ⟨old', hold', hcarriers⟩ := ok.bound hin
        rw [hold] at hold'
        cases hold'
        obtain ⟨s', isNewRow, hle, hcreated⟩ := hcarriers w hw key hkey rfl
        rw [u.log, ← hid] at hcreated
        have hbelow := (List.mem_cons.mp hcreated).resolve_left (hkept s' isNewRow)
        rcases List.mem_append.mp hbelow with hundoing | hearlier
        · exact Or.inr ⟨s', isNewRow, hundoing⟩
        · have hlt : s' < entry.statement := u.before _ hearlier
          exact absurd hle (Nat.not_le_of_lt hlt)
      · exact Or.inl ((hget _ _).mpr ⟨hbound, hgone⟩)
    · rw [← hid] at hin
      exact Or.inr ⟨s, isNewRow, (List.mem_cons.mp hin).resolve_left (hkept s isNewRow)⟩

/-- The versions that carry an entry of the log have their creation in what stays of it. -/
theorem Ok.bound_undone {other : Int} {s i : Nat} {key : Bytes} {row : RowHandle}
    (hin : ⟨s, tid, .bound i key row⟩ ∈ (dropped work id txn (undoing ++ earlier)).log other) :
    ∃ index, (table.undo id entry.write).indexes[i]? = some index ∧
      ∀ v ∈ reach l l.horizon ((table.undo id entry.write).chainOf row), ∀ k,
        index.spec.Keyed (table.undo id entry.write).maxKeyLength v.record k →
          key = Key.entry k row → ∃ s' isNewRow, s ≤ s' ∧ ⟨s', tid, .created row v.id isNewRow⟩ ∈
            (dropped work id txn (undoing ++ earlier)).log other := by
  obtain ⟨index, hindex, hcarriers⟩ := ok.bound (u.mem_log txn hin)
  obtain ⟨new, hnew, hspec⟩ := exists_index_undo table id entry.write hindex
  obtain ⟨_, _, _, _, hlimit⟩ := undo_rest table id entry.write
  refine ⟨new, hnew, fun v hv k hkey hentry => ?_⟩
  obtain ⟨w, hw, hid, hrecord⟩ := ok.exists_mem_reach_undone u htable hv
  rw [hlimit, hspec, hrecord] at hkey
  obtain ⟨s', isNewRow, hle, hcreated⟩ := hcarriers w hw k hkey hentry
  rw [← hid] at hcreated
  refine ⟨s', isNewRow, hle, ?_⟩
  rw [log_dropped]
  split
  · rename_i heq
    rw [heq, u.log] at hcreated
    exact (List.mem_cons.mp hcreated).resolve_left
      (ok.created_ne_undone u htable (mem_of_mem_reach hv))
  · exact hcreated

theorem Ok.occupied_undone {row : RowHandle} {chain : Chain}
    (h : (table.undo id entry.write).rows[row]? = some chain) : chain ≠ [] := by
  obtain ⟨hthere, hnew⟩ := (rows_undo_isSome table id entry.write row).mp
    (Option.isSome_iff_exists.mpr ⟨chain, h⟩)
  rw [← chainOf_eq h, chainOf_undo]
  split
  · rename_i hrow
    exact undo_ne_nil (ok.layered_undone u htable hrow).1 hrow hnew
  · exact ok.chainOf_ne_nil hthere

theorem Ok.held_undone (row : RowHandle) : ∃ holder,
    Layered l holder (rowLog tid row ((dropped work id txn (undoing ++ earlier)).log holder))
      ((table.undo id entry.write).chainOf row) ∧
    ∀ other, other ≠ holder →
      rowLog tid row ((dropped work id txn (undoing ++ earlier)).log other) = [] := by
  cases hrow : entry.write.row? with
  | none =>
    have huntouched : entry.touches tid row = false := by simp [LogEntry.touches, hrow]
    obtain ⟨holder, hheld, hfree⟩ := ok.held row
    refine ⟨holder, ?_, fun other hne => ?_⟩
    · rw [u.rowLog_eq txn huntouched, chainOf_undo, hrow, if_neg (by simp)]
      exact hheld
    · rw [u.rowLog_eq txn huntouched]
      exact hfree other hne
  | some touched =>
    obtain ⟨hlayered, hothers⟩ := ok.layered_undone u htable hrow
    refine ok.held_of_touched (u.touched txn hrow) hothers ?_ row
    rw [chainOf_undo, if_pos hrow]
    exact hlayered.undo (ok.tidy touched)

theorem Ok.pending_undone {row : RowHandle} {sequence : Int}
    (hin : (row, sequence) ∈ table.pendingDeletes) :
    row.val < (table.undo id entry.write).nextHandle ∧
      (∀ v older, (table.undo id entry.write).chainOf row = v :: older → v.isMarked = true) ∧
      ∀ other, rowLog tid row ((dropped work id txn (undoing ++ earlier)).log other) = [] := by
  have hnext := (undo_rest table id entry.write).1
  cases hrow : entry.write.row? with
  | none =>
    have huntouched : entry.touches tid row = false := by simp [LogEntry.touches, hrow]
    obtain ⟨hlt, hmarked, hfree⟩ := ok.pending hin
    refine ⟨by rw [hnext]; exact hlt, ?_, fun other => ?_⟩
    · rw [chainOf_undo, hrow, if_neg (by simp)]
      exact hmarked
    · rw [u.rowLog_eq txn huntouched]
      exact hfree other
  | some touched =>
    refine ok.pending_of_touched (u.touched txn hrow) ?_ (Nat.le_of_eq hnext.symm) hin
    intro sequence hpending
    have hempty := (ok.pending hpending).2.2 id
    rw [u.log, rowLog_cons, if_pos (by simp [LogEntry.touches, htable, hrow])] at hempty
    cases hempty

theorem Ok.undo_here :
    Ok l (dropped work id txn (undoing ++ earlier)) tid undoing (table.undo id entry.write) := by
  obtain ⟨hnext, hserial, hpending, _, _⟩ := undo_rest table id entry.write
  obtain ⟨hprimaryTree, hprimary⟩ := ok.primary_undo_spec id entry.write
  refine ⟨ok.occupied_undone u htable, ?_, ?_, ?_, ok.held_undone txn u htable, hprimaryTree,
    hprimary, ok.indexOk_undone u htable, ok.bound_undone txn u htable, ?_⟩
  · intro row
    rw [chainOf_undo]
    split
    · exact (ok.tidy row).undo id entry.write
    · exact ok.tidy row
  · intro row v hv
    obtain ⟨w, hw, hid, _⟩ := exists_of_mem_undone hv
    rw [hserial, hid]
    exact ok.serials hw
  · intro row chain h
    obtain ⟨old, hold⟩ := Option.isSome_iff_exists.mp ((rows_undo_isSome table id entry.write
      row).mp (Option.isSome_iff_exists.mpr ⟨chain, h⟩)).1
    rw [hnext]
    exact ok.handles hold
  · intro row sequence hin
    rw [hpending] at hin
    exact ok.pending_undone txn u htable hin

end Here

/-- Undoing the last write of a running transaction keeps a table in order. -/
theorem Ok.undo : Ok l (dropped work id txn (undoing ++ earlier)) tid undoing
    (if entry.table = tid then table.undo id entry.write else table) := by
  split
  · rename_i htable
    exact ok.undo_here txn u htable
  · rename_i htable
    exact ok.undo_elsewhere txn u htable

end Undo

end Table
end SnapshotStore
