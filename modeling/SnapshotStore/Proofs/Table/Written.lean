import Mathlib
import SnapshotStore.Proofs.Table.Write

/-!
# Writing keeps a table in order

A version that may be written over belongs to the writer or to nobody: if another running transaction
had touched the row, its version or its mark would be on top. So the writer holds the row, and the
new version, or the new mark, is one more layer of what its log says (`Ok.wrote`, `Ok.marked`).
-/

namespace SnapshotStore

open Chain

/-- The running transactions are those that the ledger knows as active. -/
structure Work.Ok (l : Ledger) (work : Work) : Prop where
  active : ∀ id : Int, l.active[id]? = (work id).map (·.snapshot)
  id : ∀ {id : Int} {txn : Transaction}, work id = some txn → txn.id = id
  txn : ∀ {id : Int} {txn : Transaction}, work id = some txn → txn.Ok

namespace Work.Ok

variable {l : Ledger} {work : Work}

theorem running (wok : Work.Ok l work) {id : Int} {txn : Transaction} (h : work id = some txn) :
    l.active[id]? = some txn.snapshot := by
  rw [wok.active, h]
  rfl

theorem exists_of_mem_log {id : Int} {entry : LogEntry} (h : entry ∈ work.log id) :
    ∃ txn, work id = some txn ∧ entry ∈ txn.log := by
  cases hwork : work id with
  | none =>
    rw [Work.log, hwork] at h
    cases h
  | some txn =>
    rw [Work.log_eq hwork] at h
    exact ⟨txn, rfl, h⟩

theorem backed (wok : Work.Ok l work) (id : Int) : Backed (work.log id) := by
  cases hwork : work id with
  | none =>
    rw [Work.log, hwork]
    trivial
  | some txn =>
    rw [Work.log_eq hwork]
    exact (wok.txn hwork).backed

/-- A transaction with a row in its log is running. -/
theorem running_of_rowLog (wok : Work.Ok l work) {id : Int} {tid : TableId} {row : RowHandle}
    (h : rowLog tid row (work.log id) ≠ []) : ∃ s, l.active[id]? = some s := by
  obtain ⟨entry, hentry⟩ := List.exists_mem_of_ne_nil _ h
  obtain ⟨txn, hwork, _⟩ := exists_of_mem_log (List.mem_filter.mp hentry).1
  exact ⟨_, wok.running hwork⟩

end Work.Ok

namespace Table

variable {l : Ledger} {work : Work} {tid : TableId} {table : Table} {txn : Transaction}
  {row : RowHandle}

/-! ## 1. Who may write -/

/-- The top layer of a row shows whose it is: it bears a mark, or its version is not committed and
of the transaction that holds the row. -/
theorem Layered.top {id : Int} {log : List LogEntry} {newest : Version} {older : Chain}
    (h : Layered l id log (newest :: older)) (hlog : log ≠ []) :
    newest.isMarked = true ∨ newest.created.transaction = id := by
  cases log with
  | nil => exact absurd rfl hlog
  | cons entry log =>
    obtain ⟨s, table, write⟩ := entry
    cases write with
    | created touched version isNewRow =>
      obtain ⟨v, _, heq, _, hcreated, _, _⟩ := layered_created.mp h
      right
      rw [(List.cons.inj heq).1, hcreated]
      rfl
    | marked touched version =>
      obtain ⟨v, _, heq, _, _, hpos, _⟩ := layered_marked.mp h
      left
      rw [(List.cons.inj heq).1]
      exact Version.isMarked_mark hpos
    | bound => exact h.elim
    | outdated => exact h.elim

/-- On top of a version that is settled and bears no mark nobody has written. -/
theorem Layered.log_eq_nil {id : Int} {log : List LogEntry} {newest : Version} {older : Chain}
    (h : Layered l id log (newest :: older)) (lok : l.Ok)
    (running : log ≠ [] → ∃ s, l.active[id]? = some s) (hunmarked : newest.isMarked = false)
    {bound : Int} (hsettled : l.committedBy newest.created.transaction bound = true) : log = [] := by
  by_contra hlog
  rcases Layered.top h hlog with hmarked | hcreated
  · rw [hunmarked] at hmarked
    cases hmarked
  · obtain ⟨s, hs⟩ := running hlog
    have hnot := Ledger.not_isCommitted_of_active lok hs
    rw [hcreated] at hsettled
    rw [Ledger.isCommitted_of_committedBy hsettled] at hnot
    cases hnot

theorem isWritable_iff {v : Version} {transaction snapshot : Int} :
    v.isWritable l transaction snapshot = true ↔ v.isMarked = false ∧
      (v.created.transaction = transaction ∨
        l.committedBy v.created.transaction snapshot = true) := by
  simp [Version.isWritable]

/-- What is said of the newest version of a row, of one that it is known to be. -/
theorem writable_newest {newest : Version} {older : Chain} {id snapshot : Int}
    (hchain : table.chainOf row = newest :: older)
    (writable : newest.isWritable l id snapshot = true) : ∀ v below,
    table.chainOf row = v :: below → v.isWritable l id snapshot = true := by
  intro v below heq
  rw [hchain] at heq
  rw [← (List.cons.inj heq).1]
  exact writable

/-- A transaction that may write a row holds it. -/
theorem Ok.layered_of_isWritable (ok : Ok l work tid [] table) (lok : l.Ok) (wok : Work.Ok l work)
    {id snapshot : Int} (writable : ∀ newest older, table.chainOf row = newest :: older →
      newest.isWritable l id snapshot = true) :
    Layered l id (rowLog tid row (work.log id)) (table.chainOf row) ∧
      ∀ other, other ≠ id → rowLog tid row (work.log other) = [] := by
  obtain ⟨holder, hlayered, hothers⟩ := ok.held row
  by_cases heq : id = holder
  · subst heq
    exact ⟨hlayered, hothers⟩
  · -- Whoever else had written the row would be on top of it, and would be running.
    have hnone : rowLog tid row (work.log holder) = [] := by
      cases hchain : table.chainOf row with
      | nil =>
        rw [hchain] at hlayered
        exact hlayered.eq_nil
      | cons newest older =>
        obtain ⟨hunmarked, hown⟩ := isWritable_iff.mp (writable newest older hchain)
        rw [hchain] at hlayered
        rcases hown with hown | hcommitted
        · by_contra hlog
          rcases Layered.top hlayered hlog with hmarked | hcreated
          · rw [hunmarked] at hmarked
            cases hmarked
          · exact heq (hown.symm.trans hcreated)
        · exact Layered.log_eq_nil hlayered lok wok.running_of_rowLog hunmarked hcommitted
    refine ⟨?_, fun other hne => ?_⟩
    · rw [hothers id heq]
      rwa [hnone] at hlayered
    · by_cases hholder : other = holder
      · rw [hholder, hnone]
      · exact hothers other hholder

/-! ## 2. A version is put on -/

/-- The log of a transaction with the writes to a table on top. -/
theorem log_remember (tid : TableId) (writes : List Write) :
    (txn.remember tid writes).log =
      (writes.map (LogEntry.mk txn.statement tid)).reverse ++ txn.log := rfl

theorem mem_log_remember {writes : List Write} {entry : LogEntry} :
    entry ∈ (txn.remember tid writes).log ↔
      (∃ write ∈ writes, ⟨txn.statement, tid, write⟩ = entry) ∨ entry ∈ txn.log := by
  rw [log_remember, List.mem_append, List.mem_reverse, List.mem_map]

theorem rowLog_remember {write : Write} {more : List Write}
    (hmore : ∀ write ∈ more, write.row? = none) (r : RowHandle) :
    rowLog tid r (txn.remember tid (write :: more)).log =
      if write.row? = some r then ⟨txn.statement, tid, write⟩ :: rowLog tid r txn.log
      else rowLog tid r txn.log := by
  have hnone : rowLog tid r (more.map (LogEntry.mk txn.statement tid)).reverse = [] := by
    refine rowLog_eq_nil fun entry hentry _ => ?_
    obtain ⟨w, hw, rfl⟩ := List.mem_map.mp (List.mem_reverse.mp hentry)
    exact hmore w hw
  rw [log_remember, List.map_cons, List.reverse_cons, List.append_assoc, rowLog_append, hnone,
    List.nil_append, List.singleton_append, rowLog, List.filter_cons]
  simp only [LogEntry.touches, decide_true, Bool.true_and, decide_eq_true_eq]
  rfl

theorem rowLog_remember_marked {version : VersionId} (r : RowHandle) :
    rowLog tid r (txn.remember tid [.marked row version]).log =
      if r = row then ⟨txn.statement, tid, .marked row version⟩ :: rowLog tid r txn.log
      else rowLog tid r txn.log := by
  refine (rowLog_remember (by simp) r).trans (if_congr ?_ rfl rfl)
  rw [Write.row?, Option.some.injEq, eq_comm]

theorem rowLog_remember_elsewhere {other : TableId} (hne : other ≠ tid) (writes : List Write)
    (r : RowHandle) : rowLog other r (txn.remember tid writes).log = rowLog other r txn.log := by
  rw [log_remember, rowLog_append, rowLog_eq_nil, List.nil_append]
  intro entry hentry htable
  obtain ⟨write, _, rfl⟩ := List.mem_map.mp (List.mem_reverse.mp hentry)
  exact absurd htable.symm hne

section Remembering

variable {id : Int} (hwork : work id = some txn)
include hwork

/-- The entries in the logs once a running transaction has remembered writes. -/
theorem mem_log_remembering {writes : List Write} {other : Int} {entry : LogEntry} :
    entry ∈ Work.log (Function.update work id (some (txn.remember tid writes))) other ↔
      (other = id ∧ ∃ write ∈ writes, ⟨txn.statement, tid, write⟩ = entry) ∨
        entry ∈ work.log other := by
  rw [Work.log_update]
  by_cases heq : other = id
  · rw [if_pos heq, heq, Work.log_eq hwork, Option.elim_some, mem_log_remember]
    simp
  · rw [if_neg heq]
    simp [heq]

/-- The logs of rows once it has made a write to one of them. -/
theorem rowLog_update {txn' : Transaction} {entry : LogEntry}
    (hrow : ∀ r, rowLog tid r txn'.log =
      if r = row then entry :: rowLog tid r txn.log else rowLog tid r txn.log)
    (r : RowHandle) (other : Int) :
    rowLog tid r (Work.log (Function.update work id (some txn')) other) =
      if other = id ∧ r = row then entry :: rowLog tid row (work.log id)
      else rowLog tid r (work.log other) := by
  rw [Work.log_update, Work.log_eq hwork]
  by_cases heq : other = id
  · rw [if_pos heq, Option.elim_some, hrow, heq, Work.log_eq hwork]
    by_cases hr : r = row
    · rw [if_pos hr, if_pos ⟨rfl, hr⟩, hr]
    · rw [if_neg hr, if_neg (fun h => hr h.2)]
  · rw [if_neg heq, if_neg (fun h => heq h.1)]

end Remembering

/-- Remembering writes to another table leaves a table alone. -/
theorem Ok.remember_elsewhere {other : TableId} (ok : Ok l work tid [] table) (hne : other ≠ tid)
    {id : Int} (hwork : work id = some txn) (writes : List Write) :
    Ok l (Function.update work id (some (txn.remember other writes))) tid [] table := by
  have hmem : ∀ {i : Int} {entry : LogEntry}, entry.table = tid →
      (entry ∈ Work.log (Function.update work id (some (txn.remember other writes))) i ↔
        entry ∈ work.log i) := by
    intro i entry htable
    refine (mem_log_remembering hwork).trans (or_iff_right ?_)
    rintro ⟨_, write, _, rfl⟩
    exact hne htable
  have hrow : ∀ (row : RowHandle) (i : Int),
      rowLog tid row (Work.log (Function.update work id (some (txn.remember other writes))) i) =
        rowLog tid row (work.log i) := by
    intro row i
    rw [Work.log_update]
    split
    · rename_i heq
      rw [heq, Work.log_eq hwork]
      exact rowLog_remember_elsewhere (Ne.symm hne) writes row
    · rfl
  refine ⟨ok.occupied, ok.tidy, ok.serials, ok.handles, ?_, ok.primaryTree, ok.primary, ?_, ?_, ?_⟩
  · intro row
    obtain ⟨holder, hlayered, hothers⟩ := ok.held row
    exact ⟨holder, by rw [hrow]; exact hlayered, fun i hi => by rw [hrow]; exact hothers i hi⟩
  · exact ok.indexes
  · intro i s n entry row hin
    obtain ⟨index, hindex, hcarriers⟩ := ok.bound ((hmem rfl).mp hin)
    refine ⟨index, hindex, fun v hv key hkey hentry => ?_⟩
    obtain ⟨s', isNewRow, hle, hcreated⟩ := hcarriers v hv key hkey hentry
    exact ⟨s', isNewRow, hle, (hmem rfl).mpr hcreated⟩
  · intro row sequence hin
    obtain ⟨hlt, hmarked, hfree⟩ := ok.pending hin
    exact ⟨hlt, hmarked, fun i => by rw [hrow]; exact hfree i⟩

/-- No deletion is pending for a row that may be written. -/
theorem Ok.not_pending (ok : Ok l work tid [] table)
    (hunmarked : ∀ newest older, table.chainOf row = newest :: older → newest.isMarked = false)
    (hfresh : table.chainOf row = [] → row.val = table.nextHandle) (sequence : Int) :
    (row, sequence) ∉ table.pendingDeletes := by
  intro hin
  obtain ⟨hlt, hmarked, _⟩ := ok.pending hin
  cases hchain : table.chainOf row with
  | nil =>
    rw [hfresh hchain] at hlt
    exact absurd hlt (Nat.lt_irrefl _)
  | cons newest older =>
    have hnot := hunmarked newest older hchain
    rw [hmarked newest older hchain] at hnot
    cases hnot

namespace Binds

variable {index : Index} {key : Bytes} {trie : Trie}

/-- Binding an entry loses none. -/
theorem get_of_bound (binds : Binds index key row trie) {entry : Bytes} {r : RowHandle}
    (h : index.trie.get? entry = some r) : trie.get? entry = some r := by
  rw [binds.get]
  split
  · rw [h]
    rfl
  · exact h

/-- What leads to a row is bound for it. -/
theorem get_own (binds : Binds index key row trie)
    (sound : ∀ {entry : Bytes} {row : RowHandle}, index.trie.get? entry = some row →
      ∃ key, entry = Key.entry key row) : trie.get? (Key.entry key row) = some row := by
  rw [binds.get, if_pos rfl]
  cases hget : index.trie.get? (Key.entry key row) with
  | none => rfl
  | some r =>
    obtain ⟨own, hown⟩ := sound hget
    rw [(Key.entry_injective hown).2]
    rfl

/-- What leads to a row does so by an entry of it. -/
theorem sound (binds : Binds index key row trie)
    (sound : ∀ {entry : Bytes} {row : RowHandle}, index.trie.get? entry = some row →
      ∃ key, entry = Key.entry key row) {entry : Bytes} {r : RowHandle}
    (h : trie.get? entry = some r) : ∃ key, entry = Key.entry key r := by
  rw [binds.get] at h
  split at h
  · rename_i heq
    rw [heq] at h ⊢
    cases hold : index.trie.get? (Key.entry key row) with
    | none =>
      rw [hold] at h
      cases h
      exact ⟨key, rfl⟩
    | some found =>
      rw [hold] at h
      cases h
      exact sound hold
  · exact sound h

end Binds

section Wrote

variable {record : Record} {old? : Option Record} {after : Table} {writes : List Write}
  (wrote : Wrote l txn table row record old? after writes)
include wrote

namespace Wrote

theorem chainOf (other : RowHandle) : after.chainOf other =
    if other = row then table.newVersion txn record :: table.chainOf row
    else table.chainOf other := by
  rw [Table.chainOf, wrote.rows]
  split <;> rfl

theorem index_back {i : Nat} {index' : Index} (h : after.indexes[i]? = some index') :
    ∃ index key trie, table.indexes[i]? = some index ∧ index' = { index with trie } ∧
      index.spec.Keyed table.maxKeyLength record key ∧ Binds index key row trie := by
  have hlt := (List.getElem?_eq_some_iff.mp h).1
  rw [wrote.indexCount] at hlt
  have hold : table.indexes[i]? = some table.indexes[i] := List.getElem?_eq_getElem hlt
  obtain ⟨key, trie, hafter, hkeyed, hbinds, _⟩ := wrote.indexes hold
  rw [h] at hafter
  exact ⟨_, key, trie, hold, Option.some.inj hafter, hkeyed, hbinds⟩

theorem rowLog (tid : TableId) (r : RowHandle) :
    rowLog tid r (txn.remember tid writes).log =
      if r = row then
        ⟨txn.statement, tid, .created row (table.newVersion txn record).id
          (table.chainOf row).isEmpty⟩ :: SnapshotStore.rowLog tid r txn.log
      else SnapshotStore.rowLog tid r txn.log := by
  obtain ⟨more, rfl, hmore⟩ := wrote.made
  rw [rowLog_remember]
  · simp only [Write.row?, Option.some.injEq, eq_comm]
  · intro write hwrite
    obtain ⟨i, index, key, _, _, ⟨rfl, _⟩ | ⟨entry, rfl⟩⟩ := hmore write hwrite
    · rfl
    · rfl

/-- The log notes the new version. -/
theorem created_mem (tid : TableId) : ⟨txn.statement, tid, .created row
    (table.newVersion txn record).id (table.chainOf row).isEmpty⟩ ∈
      (txn.remember tid writes).log := by
  obtain ⟨more, rfl, _⟩ := wrote.made
  exact mem_log_remember.mpr (Or.inl ⟨_, List.mem_cons_self, rfl⟩)

/-- An entry in the log is of before, or it was bound for the new version and unbound before. -/
theorem bound_mem {s i : Nat} {entry : Bytes} {r : RowHandle}
    (h : ⟨s, tid, .bound i entry r⟩ ∈ (txn.remember tid writes).log) :
    ⟨s, tid, .bound i entry r⟩ ∈ txn.log ∨ s = txn.statement ∧ r = row ∧
      ∃ index, table.indexes[i]? = some index ∧ index.trie.get? entry = none := by
  obtain ⟨more, rfl, hmore⟩ := wrote.made
  rcases mem_log_remember.mp h with ⟨write, hwrite, heq⟩ | h
  · right
    cases heq
    rcases List.mem_cons.mp hwrite with hcreated | hwrite
    · cases hcreated
    · obtain ⟨i', index, key, hindex, _, ⟨heq, hnone⟩ | ⟨_, heq⟩⟩ := hmore _ hwrite
      · cases heq
        exact ⟨rfl, rfl, index, hindex, hnone⟩
      · cases heq
  · exact Or.inl h

/-- A version in the table is the new one, or of before. -/
theorem mem_chainOf {r : RowHandle} {v : Version} (h : v ∈ after.chainOf r) :
    r = row ∧ v = table.newVersion txn record ∨ v ∈ table.chainOf r := by
  rw [wrote.chainOf] at h
  split at h
  · rename_i heq
    rw [heq]
    exact (List.mem_cons.mp h).imp_left fun h => ⟨rfl, h⟩
  · exact Or.inr h

theorem mem_reach {r : RowHandle} {v : Version} (h : v ∈ reach l l.horizon (after.chainOf r)) :
    r = row ∧ v = table.newVersion txn record ∨ v ∈ reach l l.horizon (table.chainOf r) := by
  rw [wrote.chainOf] at h
  split at h
  · rename_i heq
    rw [mem_reach_cons] at h
    rw [heq]
    exact h.imp (fun h => ⟨rfl, h⟩) And.right
  · exact Or.inr h

theorem nextHandle_le : table.nextHandle ≤ after.nextHandle := by
  rw [wrote.nextHandle]
  split
  · exact Nat.le_succ _
  · exact Nat.le_refl _

section Fields

variable (ok : Ok l work tid [] table)
include ok

theorem occupied {r : RowHandle} {chain : Chain} (h : after.rows[r]? = some chain) :
    chain ≠ [] := by
  rw [wrote.rows] at h
  split at h
  · cases h
    exact List.cons_ne_nil _ _
  · exact ok.occupied h

/-- The version that was written over bears no mark, and the new one has a serial of its own. -/
theorem tidy (hunmarked : ∀ newest older, table.chainOf row = newest :: older →
    newest.isMarked = false) (r : RowHandle) : Tidy (after.chainOf r) := by
  rw [wrote.chainOf]
  split
  · refine ⟨fun v hv => ?_, ?_⟩
    · cases hchain : table.chainOf row with
      | nil =>
        rw [hchain] at hv
        cases hv
      | cons newest older =>
        rw [hchain] at hv
        rcases List.mem_cons.mp hv with rfl | hv
        · exact hunmarked v older hchain
        · refine (ok.tidy row).unmarked v ?_
          rw [hchain]
          exact hv
    · rw [List.map_cons, List.nodup_cons]
      refine ⟨fun hin => ?_, (ok.tidy row).distinct⟩
      obtain ⟨v, hv, hserial⟩ := List.mem_map.mp hin
      have hlt := ok.serials hv
      rw [hserial] at hlt
      exact absurd hlt (Nat.lt_irrefl table.nextSerial)
  · exact ok.tidy r

theorem serials {r : RowHandle} {v : Version} (h : v ∈ after.chainOf r) :
    v.id.serial < after.nextSerial := by
  rw [wrote.nextSerial]
  rcases wrote.mem_chainOf h with ⟨_, rfl⟩ | h
  · exact Nat.lt_succ_self table.nextSerial
  · exact Nat.lt_succ_of_lt (ok.serials h)

theorem handles {r : RowHandle} {chain : Chain} (h : after.rows[r]? = some chain) :
    r.val < after.nextHandle := by
  by_cases heq : r = row
  · rw [heq]
    by_cases hnil : table.chainOf row = []
    · rw [wrote.nextHandle, if_pos hnil, wrote.handle hnil]
      exact Nat.lt_succ_self _
    · exact Nat.lt_of_lt_of_le (ok.handles (rows_eq hnil)) wrote.nextHandle_le
  · rw [wrote.rows, if_neg heq] at h
    exact Nat.lt_of_lt_of_le (ok.handles h) wrote.nextHandle_le

theorem primary_iff {key : Bytes} {r : RowHandle} : after.primary.get? key = some r ↔
    key = r.toBytes ∧ (after.rows[r]?).isSome = true := by
  rw [wrote.primary, wrote.rows]
  by_cases hkey : key = row.toBytes
  · rw [if_pos hkey, hkey, Option.some.injEq]
    constructor
    · rintro rfl
      exact ⟨rfl, by rw [if_pos rfl]; rfl⟩
    · rintro ⟨heq, _⟩
      exact RowHandle.toBytes_injective heq
  · rw [if_neg hkey, ok.primary]
    refine and_congr_right fun heq => ?_
    rw [if_neg]
    rintro rfl
    exact hkey heq

theorem indexOk {i : Nat} {index' : Index} (h : after.indexes[i]? = some index') :
    IndexOk l after tid [] index' := by
  obtain ⟨index, key, trie, hindex, rfl, hkeyed, hbinds⟩ := wrote.index_back h
  have hok := ok.indexes hindex
  refine ⟨hbinds.tree, fun {entry r} hget => ?_, fun {r v} hv => ?_, fun {r v k} hv hk => ?_⟩
  · exact hbinds.sound hok.sound hget
  · rw [wrote.maxKeyLength]
    rcases wrote.mem_chainOf hv with ⟨_, rfl⟩ | hv
    · exact ⟨key, hkeyed⟩
    · exact hok.keyed hv
  · left
    rw [wrote.maxKeyLength] at hk
    rcases wrote.mem_reach hv with ⟨rfl, rfl⟩ | hv
    · rw [KeySpec.Keyed.unique hk hkeyed]
      exact hbinds.get_own hok.sound
    · exact hbinds.get_of_bound ((hok.complete hv hk).resolve_right (by simp))

/-- An entry bound earlier is carried by what was created since, and now by the new version too. -/
theorem bound_before (ordered : ∀ entry ∈ txn.log, entry.statement ≤ txn.statement)
    (hlog : work.log txn.id = txn.log) {s i : Nat} {entry : Bytes} {r : RowHandle}
    (hin : ⟨s, tid, .bound i entry r⟩ ∈ txn.log) : ∃ index, after.indexes[i]? = some index ∧
      ∀ v ∈ reach l l.horizon (after.chainOf r), ∀ key,
        index.spec.Keyed after.maxKeyLength v.record key → entry = Key.entry key r →
          ∃ s' isNewRow, s ≤ s' ∧
            ⟨s', tid, .created r v.id isNewRow⟩ ∈ (txn.remember tid writes).log := by
  have hupTo := ordered _ hin
  rw [← hlog] at hin
  obtain ⟨index, hindex, hcarriers⟩ := ok.bound hin
  obtain ⟨_, trie, hafter, _⟩ := wrote.indexes hindex
  refine ⟨_, hafter, fun v hv key hkey hentry => ?_⟩
  rw [wrote.maxKeyLength] at hkey
  rcases wrote.mem_reach hv with ⟨rfl, rfl⟩ | hv
  · exact ⟨txn.statement, _, hupTo, wrote.created_mem tid⟩
  · obtain ⟨s', isNewRow, hle, hcreated⟩ := hcarriers v hv key hkey hentry
    rw [hlog] at hcreated
    exact ⟨s', isNewRow, hle, mem_log_remember.mpr (Or.inr hcreated)⟩

/-- An entry that was not bound before is carried by the new version only. -/
theorem bound_now {i : Nat} {index : Index} {entry : Bytes} (hindex : table.indexes[i]? = some index)
    (hnone : index.trie.get? entry = none) : ∃ index, after.indexes[i]? = some index ∧
      ∀ v ∈ reach l l.horizon (after.chainOf row), ∀ key,
        index.spec.Keyed after.maxKeyLength v.record key → entry = Key.entry key row →
          ∃ s' isNewRow, txn.statement ≤ s' ∧
            ⟨s', tid, .created row v.id isNewRow⟩ ∈ (txn.remember tid writes).log := by
  obtain ⟨_, trie, hafter, _⟩ := wrote.indexes hindex
  refine ⟨_, hafter, fun v hv key hkey hentry => ?_⟩
  rw [wrote.maxKeyLength] at hkey
  rcases wrote.mem_reach hv with ⟨_, rfl⟩ | hv
  · exact ⟨txn.statement, _, Nat.le_refl _, wrote.created_mem tid⟩
  · -- An older version with this key would have had its entry before.
    have hget := ((ok.indexes hindex).complete hv hkey).resolve_right (by simp)
    rw [← hentry, hnone] at hget
    cases hget

/-- An entry that another transaction bound is of another row. -/
theorem bound_elsewhere (wok : Work.Ok l work) {other : Int}
    (hother : SnapshotStore.rowLog tid row (work.log other) = []) {s i : Nat} {entry : Bytes}
    {r : RowHandle} (hin : ⟨s, tid, .bound i entry r⟩ ∈ work.log other) :
    ∃ index, after.indexes[i]? = some index ∧
      ∀ v ∈ reach l l.horizon (after.chainOf r), ∀ key,
        index.spec.Keyed after.maxKeyLength v.record key → entry = Key.entry key r →
          ∃ s' isNewRow, s ≤ s' ∧ ⟨s', tid, .created r v.id isNewRow⟩ ∈ work.log other := by
  obtain ⟨index, hindex, hcarriers⟩ := ok.bound hin
  obtain ⟨_, trie, hafter, _⟩ := wrote.indexes hindex
  refine ⟨_, hafter, fun v hv key hkey hentry => ?_⟩
  rw [wrote.maxKeyLength] at hkey
  rcases wrote.mem_reach hv with ⟨hr, _⟩ | hv
  · rw [hr] at hin
    exact absurd hother ((wok.backed other).rowLog_ne_nil hin)
  · exact hcarriers v hv key hkey hentry

end Fields

end Wrote

theorem Ok.of_wrote (ok : Ok l work tid [] table) (lok : l.Ok) (wok : Work.Ok l work) {id : Int}
    (hwork : work id = some txn) (writable : ∀ newest older,
      table.chainOf row = newest :: older → newest.isWritable l txn.id txn.snapshot = true) :
    Ok l (Function.update work id (some (txn.remember tid writes))) tid [] after := by
  have hid := wok.id hwork
  subst hid
  obtain ⟨hlayered, hothers⟩ := ok.layered_of_isWritable lok wok writable
  have hunmarked : ∀ newest older, table.chainOf row = newest :: older →
      newest.isMarked = false :=
    fun newest older hchain => (isWritable_iff.mp (writable newest older hchain)).1
  have touched : Touched tid row txn.id _ work _ table after :=
    ⟨rowLog_update hwork (wrote.rowLog tid), fun r hne => by rw [wrote.chainOf, if_neg hne]⟩
  refine ⟨wrote.occupied ok, wrote.tidy ok hunmarked, wrote.serials ok, wrote.handles ok,
    ok.held_of_touched touched hothers ?_, wrote.primaryTree, wrote.primary_iff ok,
    wrote.indexOk ok, ?_, ?_⟩
  · rw [wrote.chainOf, if_pos rfl]
    exact layered_created.mpr ⟨_, _, rfl, rfl, rfl, List.isEmpty_iff, hlayered⟩
  · intro other s i entry r hin
    rw [Work.log_update] at hin ⊢
    by_cases heq : other = txn.id
    · rw [if_pos heq] at hin ⊢
      rcases wrote.bound_mem hin with hin | ⟨rfl, rfl, index, hindex, hnone⟩
      · exact wrote.bound_before ok (wok.txn hwork).upTo (Work.log_eq hwork) hin
      · exact wrote.bound_now ok hindex hnone
    · rw [if_neg heq] at hin ⊢
      exact wrote.bound_elsewhere ok wok (hothers other heq) hin
  · intro r sequence hin
    rw [wrote.pendingDeletes] at hin
    exact ok.pending_of_touched touched (ok.not_pending hunmarked wrote.handle)
      wrote.nextHandle_le hin

end Wrote

/-! ## 3. A version is marked -/

/-- The table with another chain for a row. -/
def withChain (table : Table) (row : RowHandle) (chain : Chain) : Table :=
  { table with rows := table.rows.insert row chain }

theorem rows_withChain (table : Table) (row : RowHandle) (chain : Chain) (r : RowHandle) :
    (table.withChain row chain).rows[r]? = if r = row then some chain else table.rows[r]? :=
  Maps.get_insert _ _ _ _

theorem chainOf_withChain (table : Table) (row : RowHandle) (chain : Chain) (r : RowHandle) :
    (table.withChain row chain).chainOf r = if r = row then chain else table.chainOf r := by
  rw [Table.chainOf, rows_withChain]
  split <;> rfl

section Marked

variable {newest : Version} {older : Chain} (hchain : table.chainOf row = newest :: older)
include hchain

/-- A mark changes nothing of a version but its mark. -/
theorem exists_of_mem_marked (stamp : Stamp) {r : RowHandle} {v : Version}
    (h : v ∈ (table.withChain row (newest.mark stamp :: older)).chainOf r) :
    ∃ w ∈ table.chainOf r, v.id = w.id ∧ v.record = w.record ∧ v.created = w.created := by
  rw [chainOf_withChain] at h
  split at h
  · rename_i heq
    rw [heq, hchain]
    rcases List.mem_cons.mp h with rfl | h
    · exact ⟨newest, List.mem_cons_self, Version.id_mark _ _, Version.record_mark _ _,
        Version.created_mark _ _⟩
    · exact ⟨v, List.mem_cons_of_mem _ h, rfl, rfl, rfl⟩
  · exact ⟨v, h, rfl, rfl, rfl⟩

theorem exists_mem_reach_of_marked (l : Ledger) (horizon : Int) (stamp : Stamp) {r : RowHandle}
    {v : Version}
    (h : v ∈ reach l horizon ((table.withChain row (newest.mark stamp :: older)).chainOf r)) :
    ∃ w ∈ reach l horizon (table.chainOf r), v.id = w.id ∧ v.record = w.record := by
  rw [chainOf_withChain] at h
  split at h
  · rename_i heq
    rw [heq, hchain]
    rw [mem_reach_cons, Version.created_mark] at h
    rcases h with rfl | ⟨hopen, h⟩
    · exact ⟨newest, newest_mem_reach _ _ _ _, Version.id_mark _ _, Version.record_mark _ _⟩
    · exact ⟨v, mem_reach_cons.mpr (Or.inr ⟨hopen, h⟩), rfl, rfl⟩
  · exact ⟨v, h, rfl, rfl⟩

theorem map_serial_marked (stamp : Stamp) (r : RowHandle) :
    ((table.withChain row (newest.mark stamp :: older)).chainOf r).map (·.id.serial) =
      (table.chainOf r).map (·.id.serial) := by
  rw [chainOf_withChain]
  split
  · rename_i heq
    rw [heq, hchain, List.map_cons, List.map_cons, Version.id_mark]
  · rfl

section Fields

variable (ok : Ok l work tid [] table) (stamp : Stamp)
include ok

omit hchain in
theorem Ok.occupied_marked {r : RowHandle} {chain : Chain}
    (h : (table.withChain row (newest.mark stamp :: older)).rows[r]? = some chain) : chain ≠ [] := by
  rw [rows_withChain] at h
  split at h
  · cases h
    exact List.cons_ne_nil _ _
  · exact ok.occupied h

/-- Only the newest version bears a mark, so one more does no harm. -/
theorem Ok.tidy_marked (r : RowHandle) :
    Tidy ((table.withChain row (newest.mark stamp :: older)).chainOf r) := by
  have hdistinct := (ok.tidy r).distinct
  rw [← map_serial_marked hchain stamp r] at hdistinct
  refine ⟨?_, hdistinct⟩
  have hold := (ok.tidy r).unmarked
  rw [chainOf_withChain]
  split
  · rename_i heq
    rw [heq, hchain, List.tail_cons] at hold
    rw [List.tail_cons]
    exact hold
  · exact hold

theorem Ok.serials_marked {r : RowHandle} {v : Version}
    (h : v ∈ (table.withChain row (newest.mark stamp :: older)).chainOf r) :
    v.id.serial < table.nextSerial := by
  obtain ⟨w, hw, hid, _⟩ := exists_of_mem_marked hchain stamp h
  rw [hid]
  exact ok.serials hw

theorem Ok.handles_marked {r : RowHandle} {chain : Chain}
    (h : (table.withChain row (newest.mark stamp :: older)).rows[r]? = some chain) :
    r.val < table.nextHandle := by
  rw [rows_withChain] at h
  split at h
  · rename_i heq
    rw [heq]
    exact ok.handles (rows_eq (by rw [hchain]; exact List.cons_ne_nil _ _))
  · exact ok.handles h

theorem Ok.primary_marked {key : Bytes} {r : RowHandle} : table.primary.get? key = some r ↔
    key = r.toBytes ∧
      ((table.withChain row (newest.mark stamp :: older)).rows[r]?).isSome = true := by
  rw [ok.primary, rows_withChain]
  refine and_congr_right fun _ => ?_
  split
  · rename_i heq
    rw [heq, rows_eq (by rw [hchain]; exact List.cons_ne_nil _ _)]
    rfl
  · rfl

theorem Ok.indexOk_marked {i : Nat} {index : Index} (hindex : table.indexes[i]? = some index) :
    IndexOk l (table.withChain row (newest.mark stamp :: older)) tid [] index := by
  have hok := ok.indexes hindex
  refine ⟨hok.tree, hok.sound, fun {r v} hv => ?_, fun {r v key} hv hkey => ?_⟩
  · obtain ⟨w, hw, _, hrecord, _⟩ := exists_of_mem_marked hchain stamp hv
    rw [hrecord]
    exact hok.keyed hw
  · obtain ⟨w, hw, _, hrecord⟩ := exists_mem_reach_of_marked hchain _ _ stamp hv
    rw [hrecord] at hkey
    exact Or.inl ((hok.complete hw hkey).resolve_right (by simp))

/-- A mark binds no entry, and who carries one is as before. -/
theorem Ok.bound_marked {log : List LogEntry} {s i : Nat} {entry : Bytes} {r : RowHandle}
    {id : Int} (hin : ⟨s, tid, .bound i entry r⟩ ∈ work.log id)
    (kept : ∀ e ∈ work.log id, e ∈ log) : ∃ index, table.indexes[i]? = some index ∧
      ∀ v ∈ reach l l.horizon ((table.withChain row (newest.mark stamp :: older)).chainOf r), ∀ key,
        index.spec.Keyed table.maxKeyLength v.record key → entry = Key.entry key r →
          ∃ s' isNewRow, s ≤ s' ∧ ⟨s', tid, .created r v.id isNewRow⟩ ∈ log := by
  obtain ⟨index, hindex, hcarriers⟩ := ok.bound hin
  refine ⟨index, hindex, fun v hv key hkey hentry => ?_⟩
  obtain ⟨w, hw, hid, hrecord⟩ := exists_mem_reach_of_marked hchain _ _ stamp hv
  rw [hrecord] at hkey
  obtain ⟨s', isNewRow, hle, hcreated⟩ := hcarriers w hw key hkey hentry
  rw [← hid] at hcreated
  exact ⟨s', isNewRow, hle, kept _ hcreated⟩

end Fields

theorem Ok.of_marked (ok : Ok l work tid [] table) (lok : l.Ok) (wok : Work.Ok l work) {id : Int}
    (hwork : work id = some txn) (writable : newest.isWritable l txn.id txn.snapshot = true) :
    Ok l (Function.update work id (some (txn.remember tid [.marked row newest.id]))) tid []
      (table.withChain row (newest.mark txn.stamp :: older)) := by
  have hid := wok.id hwork
  subst hid
  obtain ⟨hlayered, hothers⟩ :=
    ok.layered_of_isWritable lok wok (writable_newest hchain writable)
  rw [hchain] at hlayered
  have hunmarked := (isWritable_iff.mp writable).1
  have hmem : ∀ {other : Int} {entry : LogEntry}, entry ∈ Work.log (Function.update work txn.id
      (some (txn.remember tid [.marked row newest.id]))) other ↔
        other = txn.id ∧ entry = ⟨txn.statement, tid, .marked row newest.id⟩ ∨
          entry ∈ work.log other := by
    intro other entry
    refine (mem_log_remembering hwork).trans ?_
    simp [eq_comm]
  have touched : Touched tid row txn.id
      (⟨txn.statement, tid, .marked row newest.id⟩ :: rowLog tid row (work.log txn.id)) work
      (Function.update work txn.id (some (txn.remember tid [.marked row newest.id]))) table
      (table.withChain row (newest.mark txn.stamp :: older)) :=
    ⟨rowLog_update hwork rowLog_remember_marked, fun r hne => by
      rw [chainOf_withChain, if_neg hne]⟩
  refine ⟨ok.occupied_marked _, ok.tidy_marked hchain _, ok.serials_marked hchain _,
    ok.handles_marked hchain _, ok.held_of_touched touched hothers ?_, ok.primaryTree,
    ok.primary_marked hchain _, ok.indexOk_marked hchain _, ?_, ?_⟩
  · rw [chainOf_withChain, if_pos rfl]
    exact layered_marked.mpr
      ⟨newest, older, rfl, rfl, hunmarked, (wok.txn hwork).begun, hlayered⟩
  · intro other s i entry r hin
    exact ok.bound_marked hchain _ ((hmem.mp hin).resolve_left (by simp)) fun e he =>
      hmem.mpr (Or.inr he)
  · intro r sequence hin
    refine ok.pending_of_touched touched (ok.not_pending ?_ ?_) (Nat.le_refl _) hin
    · intro v below heq
      rw [hchain] at heq
      rw [← (List.cons.inj heq).1]
      exact hunmarked
    · intro hnil
      rw [hchain] at hnil
      cases hnil

end Marked

end Table
end SnapshotStore
