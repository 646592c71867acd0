import Mathlib
import SnapshotStore.Transaction
import SnapshotStore.Table.Basic
import SnapshotStore.Proofs.Version.Chain

/-!
# The versions of a chain and the log of their writer

A row is written by one running transaction at a time. What that transaction has done to the row lies
on top of what was committed, and its log, read from the last write back, says exactly what lies there:
`Layered` is that relation, by recursion on the log. So undoing the last write of the log takes the
top layer off the chain (`Layered.undo`), and undoing them all uncovers the committed versions.

The one thing that is left open is the mark on a version. The word of a mark loses the high bits of a
transaction's id, so a mark whose writer has an id of 2^40 or more is not cleared when its writer is
undone. A version that bears such a mark is as good as any other here, because nobody writes over a
marked version.
-/

namespace SnapshotStore

/-! ## 1. What a write does to one row -/

namespace Write

/-- The row whose chain the write changed. -/
def row? : Write → Option RowHandle
  | .created row _ _ => some row
  | .marked row _ => some row
  | .bound _ _ _ => none
  | .outdated _ _ _ => none

/-- The write began its row. -/
def begins : Write → Bool
  | .created _ _ isNewRow => isNewRow
  | .marked _ _ | .bound _ _ _ | .outdated _ _ _ => false

end Write

namespace LogEntry

/-- The write changed the chain of that row of that table. -/
def touches (table : TableId) (row : RowHandle) (entry : LogEntry) : Bool :=
  decide (entry.table = table) && decide (entry.write.row? = some row)

end LogEntry

/-- The writes of a log to one row of one table. -/
def rowLog (table : TableId) (row : RowHandle) (log : List LogEntry) : List LogEntry :=
  log.filter (·.touches table row)

theorem rowLog_append (table : TableId) (row : RowHandle) (later earlier : List LogEntry) :
    rowLog table row (later ++ earlier) = rowLog table row later ++ rowLog table row earlier :=
  List.filter_append _ _

/-- Writes that change no chain of a table are not in the logs of its rows. -/
theorem rowLog_eq_nil {table : TableId} {row : RowHandle} {log : List LogEntry}
    (h : ∀ entry ∈ log, entry.table = table → entry.write.row? = none) :
    rowLog table row log = [] := by
  rw [rowLog, List.filter_eq_nil_iff]
  intro entry hentry htouches
  simp only [LogEntry.touches, Bool.and_eq_true, decide_eq_true_eq] at htouches
  rw [h entry hentry htouches.1] at htouches
  cases htouches.2

namespace Chain

/-- What undoing a write makes of the chain of its row; a row that is gone has an empty chain. -/
def undo (id : Int) (write : Write) (chain : Chain) : Chain :=
  match write with
  | .created _ version isNewRow => if isNewRow then [] else chain.unlink version
  | .marked _ version => chain.change version (·.unmark id)
  | .bound _ _ _ | .outdated _ _ _ => chain

@[simp]
theorem undo_nil (id : Int) (write : Write) : undo id write [] = [] := by
  cases write with
  | created row version isNewRow => cases isNewRow <;> rfl
  | marked => rfl
  | bound => rfl
  | outdated => rfl

/-- What undoing writes makes of a chain; they are given with the last one first. -/
def undoLog (id : Int) (log : List LogEntry) (chain : Chain) : Chain :=
  log.foldl (fun chain entry => chain.undo id entry.write) chain

/-! ## 2. Layers -/

/-- Only the newest version may bear a mark, and no two versions have the same number. -/
structure Tidy (chain : Chain) : Prop where
  unmarked : ∀ v ∈ chain.tail, v.isMarked = false
  distinct : (chain.map (·.id.serial)).Nodup

theorem Tidy.tail {chain : Chain} (tidy : Tidy chain) : Tidy chain.tail where
  unmarked v h := tidy.unmarked v (List.mem_of_mem_tail h)
  distinct := by
    have hnodup := tidy.distinct.tail
    rwa [← List.map_tail] at hnodup

/-- The writes of a log, the last one first, lie on top of what was committed. -/
def Layered (l : Ledger) (id : Int) : List LogEntry → Chain → Prop
  | [], chain => ∀ v ∈ chain, l.isCommitted v.created.transaction = true
  | entry :: log, chain =>
    match entry.write with
    | .created _ version isNewRow =>
      ∃ v older, chain = v :: older ∧ v.id = version ∧ v.created = .of id entry.statement ∧
        (isNewRow = true ↔ older = []) ∧ Layered l id log older
    | .marked _ version =>
      ∃ v older, chain = v.mark (.of id entry.statement) :: older ∧ v.id = version ∧
        v.isMarked = false ∧ 0 < entry.statement ∧ Layered l id log (v :: older)
    | .bound _ _ _ | .outdated _ _ _ => False

variable {l : Ledger} {id : Int} {log : List LogEntry} {entry : LogEntry} {v : Version}
  {chain older : Chain}

theorem layered_created {s : Nat} {table : TableId} {row : RowHandle} {version : VersionId}
    {isNewRow : Bool} : Layered l id (⟨s, table, .created row version isNewRow⟩ :: log) chain ↔
      ∃ v older, chain = v :: older ∧ v.id = version ∧ v.created = .of id s ∧
        (isNewRow = true ↔ older = []) ∧ Layered l id log older := Iff.rfl

theorem layered_marked {s : Nat} {table : TableId} {row : RowHandle} {version : VersionId} :
    Layered l id (⟨s, table, .marked row version⟩ :: log) chain ↔
      ∃ v older, chain = v.mark (.of id s) :: older ∧ v.id = version ∧ v.isMarked = false ∧ 0 < s ∧
        Layered l id log (v :: older) := Iff.rfl

/-- A row without versions has no layers either. -/
theorem Layered.eq_nil (h : Layered l id log []) : log = [] := by
  cases log with
  | nil => rfl
  | cons entry log =>
    obtain ⟨s, table, write⟩ := entry
    cases write with
    | created row version isNewRow =>
      obtain ⟨_, _, hnil, _⟩ := layered_created.mp h
      cases hnil
    | marked row version =>
      obtain ⟨_, _, hnil, _⟩ := layered_marked.mp h
      cases hnil
    | bound => exact h.elim
    | outdated => exact h.elim

/-- An unmarked newest version may as well have a mark that its log knows nothing of. -/
theorem Layered.remark (h : Layered l id log (v :: older)) (hv : v.isMarked = false)
    (stamp : Stamp) : Layered l id log (v.mark stamp :: older) := by
  cases log with
  | nil =>
    intro w hw
    rcases List.mem_cons.mp hw with heq | hw
    · rw [heq, Version.created_mark]
      exact h v List.mem_cons_self
    · exact h w (List.mem_cons_of_mem _ hw)
  | cons entry log =>
    obtain ⟨s, table, write⟩ := entry
    cases write with
    | created row version isNewRow =>
      obtain ⟨w, rest, heq, hid, hcreated, hnew, hrest⟩ := layered_created.mp h
      obtain ⟨hw, holder⟩ := List.cons.inj heq
      rw [← hw, ← Version.id_mark v stamp] at hid
      rw [← hw, ← Version.created_mark v stamp] at hcreated
      rw [← holder] at hnew hrest
      exact layered_created.mpr
        ⟨v.mark stamp, older, rfl, hid, hcreated, hnew, hrest⟩
    | marked row version =>
      obtain ⟨w, _, heq, _, _, hpos, _⟩ := layered_marked.mp h
      rw [(List.cons.inj heq).1, Version.isMarked_mark hpos] at hv
      cases hv
    | bound => exact h.elim
    | outdated => exact h.elim

theorem change_eq_self {version : VersionId} {f : Version → Version}
    (h : ∀ v ∈ chain, v.id ≠ version) : chain.change version f = chain := by
  rw [change]
  conv_rhs => rw [← List.map_id chain]
  refine List.map_congr_left fun v hv => ?_
  rw [if_neg (h v hv)]
  rfl

/-- In a tidy chain a change by identity meets one version. -/
theorem Tidy.change_cons (tidy : Tidy (v :: older)) (f : Version → Version) :
    Chain.change (v :: older) v.id f = f v :: older := by
  have hother : ∀ w ∈ older, w.id ≠ v.id := by
    intro w hw heq
    have hnodup := tidy.distinct
    rw [List.map_cons, List.nodup_cons] at hnodup
    exact hnodup.1 (List.mem_map.mpr ⟨w, hw, by rw [heq]⟩)
  have hrest : Chain.change older v.id f = older := change_eq_self hother
  rw [change, List.map_cons, if_pos rfl]
  exact congrArg _ hrest

/-- Undoing the creation of a version takes it off. -/
theorem undo_created {row : RowHandle} {version : VersionId} {isNewRow : Bool} (hid : v.id = version)
    (hnew : isNewRow = true ↔ older = []) :
    Chain.undo id (.created row version isNewRow) (v :: older) = older := by
  rw [Chain.undo]
  split
  · rename_i hisNew
    exact (hnew.mp hisNew).symm
  · rw [unlink, if_pos hid]

/-- Undoing a mark clears it, if it can be told whose it is. -/
theorem undo_marked {row : RowHandle} {version : VersionId} {stamp : Stamp}
    (tidy : Tidy (v.mark stamp :: older)) (hid : v.id = version) :
    Chain.undo id (.marked row version) (v.mark stamp :: older) =
      (v.mark stamp).unmark id :: older := by
  rw [Chain.undo, ← hid, ← Version.id_mark v stamp, tidy.change_cons]

/-- Undoing the last write takes the top layer off. -/
theorem Layered.undo (h : Layered l id (entry :: log) chain) (tidy : Tidy chain) :
    Layered l id log (chain.undo id entry.write) := by
  obtain ⟨s, table, write⟩ := entry
  cases write with
  | created row version isNewRow =>
    obtain ⟨v, older, rfl, hid, _, hnew, hrest⟩ := layered_created.mp h
    rw [undo_created hid hnew]
    exact hrest
  | marked row version =>
    obtain ⟨v, older, rfl, hid, hunmarked, _, hrest⟩ := layered_marked.mp h
    rw [undo_marked tidy hid]
    rcases Version.unmark_mark hunmarked (.of id s) id with heq | heq
    · rw [heq]
      exact hrest
    · rw [heq]
      exact hrest.remark hunmarked (.of id s)
  | bound => exact h.elim
  | outdated => exact h.elim

/-- Whatever lies on what was committed was created by the writer. -/
theorem Layered.creator (h : Layered l id log chain) : ∀ v ∈ chain,
    (log ≠ [] ∧ v.created.transaction = id) ∨ l.isCommitted v.created.transaction = true := by
  induction log generalizing chain with
  | nil => exact fun v hv => Or.inr (h v hv)
  | cons entry log ih =>
    have hcons : entry :: log ≠ [] := List.cons_ne_nil entry log
    obtain ⟨s, table, write⟩ := entry
    intro w hw
    cases write with
    | created row version isNewRow =>
      obtain ⟨v, older, rfl, _, hcreated, _, hrest⟩ := layered_created.mp h
      rcases List.mem_cons.mp hw with rfl | hw
      · exact Or.inl ⟨hcons, by rw [hcreated]; rfl⟩
      · exact (ih hrest w hw).imp_left fun hbelow => ⟨hcons, hbelow.2⟩
    | marked row version =>
      obtain ⟨v, older, rfl, _, _, _, hrest⟩ := layered_marked.mp h
      rcases List.mem_cons.mp hw with rfl | hw
      · -- A mark leaves the creator of the version.
        rw [Version.created_mark]
        exact (ih hrest v List.mem_cons_self).imp_left fun hbelow => ⟨hcons, hbelow.2⟩
      · exact (ih hrest w (List.mem_cons_of_mem _ hw)).imp_left fun hbelow => ⟨hcons, hbelow.2⟩
    | bound => exact h.elim
    | outdated => exact h.elim

/-! ## 3. Undoing keeps chains tidy -/

theorem map_serial_change (version : VersionId) (transaction : Int) (chain : Chain) :
    (chain.change version (·.unmark transaction)).map (·.id.serial) = chain.map (·.id.serial) := by
  rw [change, List.map_map]
  refine List.map_congr_left fun v _ => ?_
  simp only [Function.comp_apply]
  split <;> simp

theorem isMarked_unmark {transaction : Int} (h : v.isMarked = false) :
    (v.unmark transaction).isMarked = false := by
  rw [Version.unmark]
  split
  · rfl
  · exact h

theorem undo_isSuffix_map_serial (id : Int) (write : Write) (chain : Chain) :
    (chain.undo id write).map (·.id.serial) <:+ chain.map (·.id.serial) := by
  cases write with
  | created row version isNewRow =>
    rw [undo]
    split
    · exact List.nil_suffix
    · cases chain with
      | nil => exact List.suffix_rfl
      | cons v older =>
        rw [unlink]
        split
        · exact ⟨[v.id.serial], rfl⟩
        · exact List.suffix_rfl
  | marked row version =>
    rw [undo, map_serial_change]
  | bound => exact List.suffix_rfl
  | outdated => exact List.suffix_rfl

theorem Tidy.undo (tidy : Tidy chain) (id : Int) (write : Write) : Tidy (chain.undo id write) := by
  refine ⟨?_, (undo_isSuffix_map_serial id write chain).sublist.nodup tidy.distinct⟩
  cases write with
  | created row version isNewRow =>
    rw [Chain.undo]
    split
    · intro v h
      cases h
    · cases chain with
      | nil => exact tidy.unmarked
      | cons w older =>
        rw [unlink]
        split
        · exact tidy.tail.unmarked
        · exact tidy.unmarked
  | marked row version =>
    intro v h
    rw [Chain.undo, change, ← List.map_tail] at h
    obtain ⟨w, hw, rfl⟩ := List.mem_map.mp h
    have hunmarked := tidy.unmarked w hw
    split
    · exact isMarked_unmark hunmarked
    · exact hunmarked
  | bound => exact tidy.unmarked
  | outdated => exact tidy.unmarked

/-- Undoing leaves what a version says and who created it. -/
theorem exists_of_mem_undo {write : Write} (h : v ∈ chain.undo id write) :
    ∃ w ∈ chain, v.id = w.id ∧ v.record = w.record ∧ v.created = w.created := by
  cases write with
  | created row version isNewRow =>
    rw [Chain.undo] at h
    split at h
    · cases h
    · cases chain with
      | nil => cases h
      | cons w older =>
        rw [unlink] at h
        split at h
        · exact ⟨v, List.mem_cons_of_mem _ h, rfl, rfl, rfl⟩
        · exact ⟨v, h, rfl, rfl, rfl⟩
  | marked row version =>
    rw [Chain.undo, change] at h
    obtain ⟨w, hw, rfl⟩ := List.mem_map.mp h
    refine ⟨w, hw, ?_⟩
    split <;> simp
  | bound => exact ⟨v, h, rfl, rfl, rfl⟩
  | outdated => exact ⟨v, h, rfl, rfl, rfl⟩

end Chain
end SnapshotStore
