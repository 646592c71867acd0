import Mathlib
import SnapshotStore.Proofs.History.Latest

/-!
# Under which snapshot a row was written

A diary is a chronicle that also keeps, for every write, the snapshot that its writer had at the time.
It goes along with the store as the chronicle does and copies the snapshots from it, so forgetting them
leaves the chronicle.

What it shows is that no update is lost (`Diary.NothingLost`): of two transactions that have committed
writes to one row, the later one made all of its writes to the row under a snapshot that has the commit
of the other. At the time of a write this is what the last commit to the row being on top gives
(`Store.Reflects.known`). From then on until its writer commits, nobody else writes to the row, so
nobody can come in between (`Store.Move.informed`).
-/

namespace SnapshotStore

/-- A write, and the snapshot of its writer at the time. -/
structure Dated where
  deed : Deed
  snapshot : Int
deriving DecidableEq

/-- A transaction that has committed, and what it did under which snapshots, the last write first. -/
structure DatedCommit where
  transaction : Int
  sequence : Int
  writes : List Dated
deriving DecidableEq

/-- The commit as chronicles have it. -/
def DatedCommit.plain (commit : DatedCommit) : Commit :=
  ⟨commit.transaction, commit.sequence, commit.writes.map (·.deed)⟩

/-- A chronicle and, beside it, the snapshots. -/
structure Diary where
  chronicle : Chronicle := {}
  /-- The writes of each running transaction that have not been taken back, the last one first. -/
  pending : Int → List Dated := fun _ => []
  /-- The last commit first. -/
  commits : List DatedCommit := []

namespace Diary

/-! ## 1. Keeping a diary -/

/-- Goes on with the next event; if it is a write, its writer has that snapshot. -/
def tell (snapshot : Int) (diary : Diary) (event : Event) : Diary :=
  let told := { diary with chronicle := diary.chronicle.tell event }
  match event with
  | .wrote id table row record? =>
    { told with
      pending := Function.update diary.pending id
        (⟨⟨id, diary.chronicle.statement id, table, row, record?⟩, snapshot⟩ :: diary.pending id) }
  | .committed id =>
    { told with
      commits := ⟨id, diary.chronicle.sequence + 1, diary.pending id⟩ :: diary.commits
      pending := Function.update diary.pending id [] }
  | .undone id whole =>
    { told with
      pending := Function.update diary.pending id
        (if whole then []
        else (diary.pending id).filter fun write =>
          decide (write.deed.statement ≠ diary.chronicle.statement id)) }
  | .began _ | .statement _ | .aborted _ | .quiet _ => told

theorem chronicle_tell (snapshot : Int) (diary : Diary) (event : Event) :
    (diary.tell snapshot event).chronicle = diary.chronicle.tell event := by
  cases event <;> rfl

theorem chronicle_foldl_tell (snapshot : Int) (diary : Diary) (events : List Event) :
    (events.foldl (tell snapshot) diary).chronicle = events.foldl Chronicle.tell diary.chronicle := by
  induction events generalizing diary with
  | nil => rfl
  | cons event events ih =>
    rw [List.foldl_cons, List.foldl_cons, ih, chronicle_tell]

/-- Nothing quiet is worth telling. -/
theorem foldl_tell_loud (snapshot : Int) (diary : Diary) (events : List Event) :
    (events.filter (!·.isQuiet)).foldl (tell snapshot) diary = events.foldl (tell snapshot) diary := by
  induction events generalizing diary with
  | nil => rfl
  | cons event events ih =>
    rw [List.filter_cons]
    cases event with
    | quiet => exact ih diary
    | began | statement | wrote | committed | undone | aborted => exact ih _

/-- Of two transactions that have committed writes to one row, the later one wrote under snapshots that
have the commit of the other. -/
def NothingLost (diary : Diary) : Prop :=
  ∀ earlier ∈ diary.commits, ∀ later ∈ diary.commits, earlier.sequence < later.sequence →
    ∀ before ∈ earlier.writes, ∀ after ∈ later.writes,
      before.deed.table = after.deed.table → before.deed.row = after.deed.row →
        earlier.sequence ≤ after.snapshot

/-- Every write was made in the knowledge of all commits to its row. -/
structure Informed (diary : Diary) (work : Work) : Prop where
  pending : ∀ id, diary.chronicle.pending id = (diary.pending id).map (·.deed)
  commits : diary.chronicle.commits = diary.commits.map DatedCommit.plain
  /-- Snapshots only go on. -/
  held : ∀ {id : Int} {txn : Transaction} {write : Dated}, work id = some txn →
    write ∈ diary.pending id → write.snapshot ≤ txn.snapshot
  known : ∀ {id : Int} {write : Dated}, write ∈ diary.pending id →
    ∀ deed ∈ diary.chronicle.settled write.deed.table write.deed.row,
      ∃ s ≤ write.snapshot, diary.chronicle.CommittedAt deed.transaction s
  lossless : diary.NothingLost

variable {diary diary' : Diary} {work work' : Work} {id : Int} {txn txn' : Transaction}

theorem informed_start : Informed {} fun _ => none where
  pending _ := rfl
  commits := rfl
  held h := by cases h
  known h := by cases h
  lossless := by
    intro earlier h
    cases h

namespace Informed

variable (informed : diary.Informed work)
include informed

/-- The pending writes to a row are among those of the chronicle. -/
theorem mem_writes {write : Dated} (h : write ∈ diary.pending id) :
    write.deed ∈ diary.chronicle.writes id write.deed.table write.deed.row := by
  refine List.mem_filter.mpr ⟨?_, Deed.on_iff.mpr ⟨rfl, rfl⟩⟩
  rw [informed.pending]
  exact List.mem_map_of_mem h

theorem exists_of_mem_writes {deed : Deed} {tid : TableId} {row : RowHandle}
    (h : deed ∈ diary.chronicle.writes id tid row) :
    ∃ write ∈ diary.pending id, write.deed.table = tid ∧ write.deed.row = row := by
  obtain ⟨hpending, hon⟩ := List.mem_filter.mp h
  rw [informed.pending] at hpending
  obtain ⟨write, hwrite, rfl⟩ := List.mem_map.mp hpending
  exact ⟨write, hwrite, Deed.on_iff.mp hon⟩

/-- The committed writes to a row are among those of the chronicle. -/
theorem mem_settled {commit : DatedCommit} (hcommit : commit ∈ diary.commits) {write : Dated}
    (h : write ∈ commit.writes) :
    write.deed ∈ diary.chronicle.settled write.deed.table write.deed.row := by
  refine List.mem_filter.mpr ⟨List.mem_flatMap.mpr ⟨commit.plain, ?_, List.mem_map_of_mem h⟩,
    Deed.on_iff.mpr ⟨rfl, rfl⟩⟩
  rw [informed.commits]
  exact List.mem_map_of_mem hcommit

theorem plain_mem {commit : DatedCommit} (h : commit ∈ diary.commits) :
    commit.plain ∈ diary.chronicle.commits := by
  rw [informed.commits]
  exact List.mem_map_of_mem h

/-- Nothing changes while the writes and the commits stay. -/
theorem goes_on (hpending : diary'.pending = diary.pending) (hcommits : diary'.commits = diary.commits)
    (hchronicle : diary'.chronicle.pending = diary.chronicle.pending)
    (hchronicle' : diary'.chronicle.commits = diary.chronicle.commits)
    (hheld : ∀ {id : Int} {txn : Transaction} {write : Dated}, work' id = some txn →
      write ∈ diary.pending id → write.snapshot ≤ txn.snapshot) : diary'.Informed work' where
  pending id := by rw [hchronicle, hpending, informed.pending]
  commits := by rw [hchronicle', hcommits, informed.commits]
  held hwork h := by
    rw [hpending] at h
    exact hheld hwork h
  known {id write} h deed hdeed := by
    rw [hpending] at h
    rw [Chronicle.settled, hchronicle'] at hdeed
    obtain ⟨s, hle, hs⟩ := informed.known h deed hdeed
    refine ⟨s, hle, ?_⟩
    rw [Chronicle.CommittedAt, hchronicle']
    exact hs
  lossless := by
    rw [NothingLost, hcommits]
    exact informed.lossless

/-- The snapshot of a transaction goes on. -/
theorem held_update (running : work id = some txn) {other : Int} {t : Transaction} {write : Dated}
    (hwork : Function.update work id (some txn') other = some t) (h : write ∈ diary.pending other)
    (hle : txn.snapshot ≤ txn'.snapshot) : write.snapshot ≤ t.snapshot := by
  rw [Function.update_apply] at hwork
  split at hwork
  · rename_i heq
    cases hwork
    rw [heq] at h
    exact Int.le_trans (informed.held running h) hle
  · exact informed.held hwork h

/-- One more write, by somebody who knows all commits to the row. -/
theorem deed (running : work id = some txn) (hsnapshot : txn'.snapshot = txn.snapshot) {tid : TableId}
    {row : RowHandle} (hknown : ∀ deed ∈ diary.chronicle.settled tid row,
      ∃ s ≤ txn.snapshot, diary.chronicle.CommittedAt deed.transaction s) (record? : Option Record) :
    (diary.tell txn.snapshot (.wrote id tid row record?)).Informed
      (Function.update work id (some txn')) := by
  have hpending : ∀ other, (diary.tell txn.snapshot (.wrote id tid row record?)).pending other =
      if other = id then
        ⟨⟨id, diary.chronicle.statement id, tid, row, record?⟩, txn.snapshot⟩ :: diary.pending id
      else diary.pending other := fun other => Function.update_apply ..
  -- A write that is pending now is the new one, or it was pending before.
  have hmem : ∀ {other : Int} {write : Dated},
      write ∈ (diary.tell txn.snapshot (.wrote id tid row record?)).pending other →
        (other = id ∧ write.deed.table = tid ∧ write.deed.row = row ∧
          write.snapshot = txn.snapshot) ∨ write ∈ diary.pending other := by
    intro other write h
    rw [hpending] at h
    split at h
    · rename_i heq
      rcases List.mem_cons.mp h with rfl | h
      · exact Or.inl ⟨heq, rfl, rfl, rfl⟩
      · rw [heq]
        exact Or.inr h
    · exact Or.inr h
  refine ⟨fun other => ?_, informed.commits, fun {other t write} hwork h => ?_,
    fun {other write} h deed hdeed => ?_, informed.lossless⟩
  · rw [chronicle_tell, Chronicle.pending_wrote, hpending, informed.pending, informed.pending]
    split <;> rfl
  · rcases hmem h with ⟨heq, _, _, hnow⟩ | h
    · rw [heq, Function.update_self] at hwork
      cases hwork
      rw [hnow, hsnapshot]
    · exact informed.held_update running hwork h (Int.le_of_eq hsnapshot.symm)
  · rcases hmem h with ⟨_, htable, hrow, hnow⟩ | h
    · rw [htable, hrow] at hdeed
      rw [hnow]
      exact hknown deed hdeed
    · exact informed.known h deed hdeed

end Informed
end Diary

/-! ## 2. Moves -/

namespace Store

variable {store store' : Store} {work work' : Work} {diary : Diary} {event : Event}

/-- Whoever may write over a row knows all commits to it. -/
theorem Reflects.informs (reflects : store.Reflects work diary.chronicle) (ok : store.Ok work)
    (informed : diary.Informed work) {id : Int} {txn : Transaction} (running : work id = some txn)
    {tid : TableId} {table : Table} (here : store.tables[tid]? = some table) {row : RowHandle}
    (writable : ∀ newest older, table.chainOf row = newest :: older →
      newest.isWritable store.ledger txn.id txn.snapshot = true)
    (handle : table.chainOf row = [] → row.val = table.nextHandle) :
    ∀ deed ∈ diary.chronicle.settled tid row,
      ∃ s ≤ txn.snapshot, diary.chronicle.CommittedAt deed.transaction s := by
  intro deed hdeed
  by_cases huntouched : diary.chronicle.writes id tid row = []
  · exact reflects.known ok running here writable handle huntouched hdeed
  · -- It has written to the row before, and nobody has committed a write to it since.
    obtain ⟨mine, hmine⟩ := List.exists_mem_of_ne_nil _ huntouched
    obtain ⟨write, hwrite, htable, hrow⟩ := informed.exists_of_mem_writes hmine
    rw [← htable, ← hrow] at hdeed
    obtain ⟨s, hle, hs⟩ := informed.known hwrite deed hdeed
    exact ⟨s, Int.le_trans hle (informed.held running hwrite), hs⟩

/-- A commit loses nothing. -/
theorem Reflects.informed_commit (reflects : store.Reflects work diary.chronicle)
    (ok : store.Ok work) (informed : diary.Informed work) (id snapshot : Int) :
    (diary.tell snapshot (.committed id)).Informed (Function.update work id none) := by
  have hpending : ∀ other, (diary.tell snapshot (.committed id)).pending other =
      if other = id then [] else diary.pending other := fun other => Function.update_apply ..
  have hlater : ∀ {other s : Int}, diary.chronicle.CommittedAt other s →
      (diary.chronicle.tell (.committed id)).CommittedAt other s :=
    fun h => Chronicle.committedAt_committed.mpr (Or.inr h)
  refine ⟨fun other => ?_, ?_, fun {other t write} hwork h => ?_, fun {other write} h deed hdeed => ?_,
    fun earlier hearlier later hlaterMem hlt before hbefore after hafter htable hrow => ?_⟩
  · rw [Diary.chronicle_tell, Chronicle.pending_committed, hpending, informed.pending]
    split <;> rfl
  · show (⟨id, diary.chronicle.sequence + 1, diary.chronicle.pending id⟩ : Commit) ::
      diary.chronicle.commits = DatedCommit.plain _ :: diary.commits.map DatedCommit.plain
    rw [informed.pending, informed.commits]
    rfl
  · rw [hpending] at h
    rw [Function.update_apply] at hwork
    split at h
    · cases h
    · rename_i hne
      rw [if_neg hne] at hwork
      exact informed.held hwork h
  · rw [hpending] at h
    split at h
    · cases h
    · rename_i hne
      rw [Diary.chronicle_tell] at hdeed ⊢
      rw [Chronicle.settled_committed] at hdeed
      rcases List.mem_append.mp hdeed with hmine | hdeed
      · -- Two running transactions do not write to one row.
        have htouched : diary.chronicle.Touched write.deed.table write.deed.row :=
          ⟨id, fun hnil => List.ne_nil_of_mem hmine (List.append_eq_nil_iff.mp hnil).1⟩
        obtain ⟨table, here, _⟩ := reflects.placed htouched
        have hlog : rowLog write.deed.table write.deed.row (work.log id) ≠ [] := fun hnil =>
          List.ne_nil_of_mem hmine ((reflects.work.logged id _ _).eq_nil.mp hnil)
        obtain ⟨_, hfree⟩ := (ok.tables here).layered hlog
        have hnone := (reflects.work.logged other _ _).eq_nil.mp (hfree other hne)
        exact absurd hnone (List.ne_nil_of_mem (informed.mem_writes h))
      · obtain ⟨s, hle, hs⟩ := informed.known h deed hdeed
        exact ⟨s, hle, hlater hs⟩
  · have hdrawn : ∀ {commit : DatedCommit}, commit ∈ diary.commits →
        commit.sequence ≤ diary.chronicle.sequence :=
      fun h => reflects.sound.drawn (informed.plain_mem h)
    rcases List.mem_cons.mp hlaterMem with rfl | hlaterMem
    · rcases List.mem_cons.mp hearlier with rfl | hearlier
      · exact absurd hlt (Int.lt_irrefl _)
      · have hdeed := informed.mem_settled hearlier hbefore
        rw [htable, hrow] at hdeed
        obtain ⟨s, hle, hs⟩ := informed.known hafter _ hdeed
        have hcommit := informed.plain_mem hearlier
        have hat : diary.chronicle.CommittedAt before.deed.transaction earlier.sequence :=
          ⟨_, hcommit, (reflects.sound.committed hcommit (List.mem_map_of_mem hbefore)).symm, rfl⟩
        rw [reflects.ledger.unique hat hs]
        exact hle
    · rcases List.mem_cons.mp hearlier with rfl | hearlier
      · have hle := hdrawn hlaterMem
        exact absurd (Int.lt_of_lt_of_le hlt hle) (by simp)
      · exact informed.lossless earlier hearlier later hlaterMem hlt before hbefore after hafter
          htable hrow

/-- A rollback leaves some of the writes. -/
theorem informed_undone (informed : diary.Informed work) {id : Int} {txn : Transaction}
    (running : work id = some txn) (whole : Bool) (log : List LogEntry) (snapshot : Int) :
    (diary.tell snapshot (.undone id whole)).Informed
      (Function.update work id (some { txn with log })) := by
  have hpending : ∀ other, (diary.tell snapshot (.undone id whole)).pending other =
      if other = id then
        if whole then []
        else (diary.pending id).filter fun write =>
          decide (write.deed.statement ≠ diary.chronicle.statement id)
      else diary.pending other := fun other => Function.update_apply ..
  have hmem : ∀ {other : Int} {write : Dated},
      write ∈ (diary.tell snapshot (.undone id whole)).pending other → write ∈ diary.pending other := by
    intro other write h
    rw [hpending] at h
    split at h
    · rename_i heq
      rw [heq]
      split at h
      · cases h
      · exact List.mem_of_mem_filter h
    · exact h
  refine ⟨fun other => ?_, informed.commits, fun {other t write} hwork h => ?_,
    fun h => informed.known (hmem h), informed.lossless⟩
  · rw [Diary.chronicle_tell, Chronicle.pending_undone, hpending, informed.pending, informed.pending]
    split
    · split
      · rfl
      · rw [List.filter_map]
        rfl
    · rfl
  · exact informed.held_update running hwork (hmem h) (Int.le_refl _)

/-- Every move loses nothing; what is written is written under the snapshot of its writer. -/
theorem Move.informed (move : Move store work event store' work') (ok : store.Ok work)
    (reflects : store.Reflects work diary.chronicle) (informed : diary.Informed work) {snapshot : Int}
    (hsnapshot : ∀ {id : Int} {txn : Transaction} {tid : TableId} {row : RowHandle}
      {record? : Option Record}, event = .wrote id tid row record? → work id = some txn →
        snapshot = txn.snapshot) : (diary.tell snapshot event).Informed work' := by
  cases move with
  | began begin =>
    obtain ⟨_, rfl, rfl, rfl⟩ := Ledger.begin?_eq_some.mp begin
    refine informed.goes_on rfl rfl rfl rfl fun {other t write} hwork h => ?_
    rw [Function.update_apply] at hwork
    split at hwork
    · -- It has not written anything yet.
      rename_i heq
      have hnone := reflects.work.idle ok.idle_next
      rw [← heq, informed.pending, List.map_eq_nil_iff] at hnone
      rw [hnone] at h
      cases h
    · exact informed.held hwork h
  | statement running | doomed running =>
    exact informed.goes_on rfl rfl rfl rfl
      fun hwork h => informed.held_update running hwork h (Int.le_refl _)
  | refreshed running =>
    refine informed.goes_on rfl rfl rfl rfl fun hwork h => informed.held_update running hwork h ?_
    exact (ok.ledger.active (ok.runs.running running)).2.2.2
  | aborted running blank =>
    refine informed.goes_on rfl rfl rfl rfl fun {other t write} hwork h => ?_
    rw [Function.update_apply] at hwork
    split at hwork
    · cases hwork
    · exact informed.held hwork h
  | refused | built | reclaimed | admitted | added => exact informed
  | @wrote id txn tid table after row record old? writes running sound here wrote writable =>
    rw [hsnapshot rfl running]
    have hsame : (txn.remember tid writes).snapshot = txn.snapshot := rfl
    exact informed.deed running hsame
      (reflects.informs ok informed running here writable wrote.handle) _
  | @marked id txn tid table row newest older running sound here hchain writable =>
    rw [hsnapshot rfl running]
    have hsame : (txn.remember tid [.marked row newest.id]).snapshot = txn.snapshot := rfl
    refine informed.deed running hsame (reflects.informs ok informed running here ?_ ?_) _
    · intro v below heq
      rw [hchain] at heq
      rw [← (List.cons.inj heq).1]
      exact writable
    · intro hnil
      rw [hchain] at hnil
      cases hnil
  | @committed id txn running sound => exact reflects.informed_commit ok informed id snapshot
  | @undone id txn running whole => exact informed_undone informed running whole _ snapshot

/-! ## 3. Runs of moves -/

/-- Moves one after another can be parted. -/
theorem Moves.of_append {events events' : List Event}
    (moves : Moves store work (events ++ events') store' work') : ∃ middle between,
      Moves store work events middle between ∧ Moves middle between events' store' work' := by
  induction events generalizing store work with
  | nil => exact ⟨store, work, .refl, moves⟩
  | cons event events ih =>
    cases moves with
    | step move rest =>
      obtain ⟨middle, between, before, after⟩ := ih rest
      exact ⟨middle, between, .step move before, after⟩

/-- Moves that write nothing lose nothing. -/
theorem Moves.informed {events : List Event} (moves : Moves store work events store' work')
    (ok : store.Ok work) (reflects : store.Reflects work diary.chronicle)
    (informed : diary.Informed work) (snapshot : Int)
    (hnone : ∀ {id : Int} {tid : TableId} {row : RowHandle} {record? : Option Record},
      Event.wrote id tid row record? ∉ events) :
    (events.foldl (Diary.tell snapshot) diary).Informed work' := by
  induction moves generalizing diary with
  | refl => exact informed
  | step move rest ih =>
    have hreflects := move.reflects ok reflects
    rw [← Diary.chronicle_tell snapshot] at hreflects
    refine ih (move.ok ok) hreflects (move.informed ok reflects informed fun heq _ => ?_)
      fun h => hnone (List.mem_cons_of_mem _ h)
    rw [heq] at hnone
    exact absurd List.mem_cons_self hnone

/-- Moves of which the last one writes. -/
theorem Moves.informed_wrote (lead : List Event) {id : Int} {tid : TableId} {row : RowHandle}
    {record? : Option Record}
    (moves : Moves store work (lead ++ [.wrote id tid row record?]) store' work')
    (ok : store.Ok work) (reflects : store.Reflects work diary.chronicle)
    (informed : diary.Informed work) {snapshot : Int}
    (hlead : ∀ {id : Int} {tid : TableId} {row : RowHandle} {record? : Option Record},
      Event.wrote id tid row record? ∉ lead)
    (hsnapshot : ∀ {txn : Transaction}, work' id = some txn → txn.snapshot = snapshot) :
    ((lead ++ [Event.wrote id tid row record?]).foldl (Diary.tell snapshot) diary).Informed work' := by
  obtain ⟨middle, between, before, last⟩ := moves.of_append
  have hinformed := before.informed ok reflects informed snapshot hlead
  have hreflects := before.reflects ok reflects
  rw [← Diary.chronicle_foldl_tell snapshot] at hreflects
  rw [List.foldl_append]
  cases last with
  | step move rest =>
    cases rest
    refine move.informed (before.ok ok) hreflects hinformed fun heq running => ?_
    cases heq
    -- Writing leaves the snapshot of the writer.
    cases move with
    | wrote running' =>
      cases running'.symm.trans running
      exact (hsnapshot (Function.update_self _ _ _)).symm
    | marked running' =>
      cases running'.symm.trans running
      exact (hsnapshot (Function.update_self _ _ _)).symm

end Store
end SnapshotStore
