import Mathlib
import SnapshotStore.Proofs.History.Attests
import SnapshotStore.Proofs.History.Spells
import SnapshotStore.Proofs.Store.Session

/-!
# The store shows its history

Whatever has happened to a store can be seen in it, as far as a reader can tell: the ledger knows the
commits, the logs hold the deeds that may yet be taken back, and the chain of every row shows the deeds
of its writer on top of what was committed (`Store.Shows`). Every move of a store keeps this
(`Move.shows`). It is where reclamation, rollbacks and commits are shown to make no difference to
anybody, once and for all.

The numbers of transactions have to stay below 2^40: the mark of a greater one is not cleared when its
writer is undone.
-/

namespace List

/-- What corresponds to a member of the second list is in the first. -/
theorem Forall₂.exists_of_mem {α β : Type} {R : α → β → Prop} {as : List α} {bs : List β}
    (h : List.Forall₂ R as bs) {b : β} (hb : b ∈ bs) : ∃ a ∈ as, R a b := by
  induction h with
  | nil => cases hb
  | cons hab _ ih =>
    rcases List.mem_cons.mp hb with rfl | hb
    · exact ⟨_, List.mem_cons_self, hab⟩
    · obtain ⟨a, ha, hR⟩ := ih hb
      exact ⟨a, List.mem_cons_of_mem _ ha, hR⟩

theorem Forall₂.exists_append {α β : Type} {R : α → β → Prop} {as as' : List α} {bs : List β}
    (h : List.Forall₂ R (as ++ as') bs) :
    ∃ bs₁ bs₂, bs = bs₁ ++ bs₂ ∧ List.Forall₂ R as bs₁ ∧ List.Forall₂ R as' bs₂ := by
  induction as generalizing bs with
  | nil => exact ⟨[], bs, rfl, .nil, h⟩
  | cons a as ih =>
    cases h with
    | cons hab hrest =>
      obtain ⟨bs₁, bs₂, rfl, h₁, h₂⟩ := ih hrest
      exact ⟨_ :: bs₁, bs₂, rfl, .cons hab h₁, h₂⟩

theorem Forall₂.eq_nil {α β : Type} {R : α → β → Prop} {as : List α} {bs : List β}
    (h : List.Forall₂ R as bs) : as = [] ↔ bs = [] := by
  cases h <;> simp

end List

namespace SnapshotStore

namespace Chronicle

variable {c : Chronicle} {id other : Int} {tid : TableId} {row : RowHandle}

/-! ## 1. The deeds to a row after an event -/

theorem pending_wrote (id other : Int) (tid : TableId) (row : RowHandle) (record? : Option Record) :
    (c.tell (.wrote id tid row record?)).pending other =
      if other = id then ⟨id, c.statement id, tid, row, record?⟩ :: c.pending id
      else c.pending other := Function.update_apply ..

theorem pending_undone (id other : Int) (whole : Bool) :
    (c.tell (.undone id whole)).pending other =
      if other = id then
        if whole then []
        else (c.pending id).filter fun deed => decide (deed.statement ≠ c.statement id)
      else c.pending other := Function.update_apply ..

theorem pending_committed (id other : Int) : (c.tell (.committed id)).pending other =
    if other = id then [] else c.pending other := Function.update_apply ..

theorem writes_wrote (id other : Int) (tid tid' : TableId) (row row' : RowHandle)
    (record? : Option Record) : (c.tell (.wrote id tid row record?)).writes other tid' row' =
      if other = id ∧ tid' = tid ∧ row' = row then
        ⟨id, c.statement id, tid, row, record?⟩ :: c.writes other tid' row'
      else c.writes other tid' row' := by
  rw [writes, writes, pending_wrote]
  by_cases hid : other = id
  · rw [if_pos hid, List.filter_cons, hid]
    by_cases hon : tid' = tid ∧ row' = row
    · rw [if_pos (Deed.on_iff.mpr ⟨hon.1.symm, hon.2.symm⟩), if_pos ⟨rfl, hon⟩]
    · rw [if_neg fun h => hon ⟨(Deed.on_iff.mp h).1.symm, (Deed.on_iff.mp h).2.symm⟩,
        if_neg fun h => hon h.2]
  · rw [if_neg hid, if_neg fun h => hid h.1]

theorem writes_undone (id other : Int) (whole : Bool) (tid : TableId) (row : RowHandle) :
    (c.tell (.undone id whole)).writes other tid row =
      if other = id then
        if whole then []
        else (c.writes id tid row).filter fun deed => decide (deed.statement ≠ c.statement id)
      else c.writes other tid row := by
  rw [writes, writes, writes, pending_undone]
  split
  · cases whole with
    | true => rfl
    | false =>
      simp only [Bool.false_eq_true, if_false, List.filter_filter]
      exact List.filter_congr fun deed _ => Bool.and_comm _ _
  · rfl

theorem writes_committed (id other : Int) (tid : TableId) (row : RowHandle) :
    (c.tell (.committed id)).writes other tid row =
      if other = id then [] else c.writes other tid row := by
  rw [writes, writes, pending_committed]
  split <;> rfl

theorem settled_committed (id : Int) (tid : TableId) (row : RowHandle) :
    (c.tell (.committed id)).settled tid row = c.writes id tid row ++ c.settled tid row := by
  rw [settled, settled, writes, tell, List.flatMap_cons, List.filter_append]

/-- Committed deeds come in the order of the commits. -/
theorem pairwise_settled (sound : c.Sound) (tid : TableId) (row : RowHandle) :
    (c.settled tid row).Pairwise fun later earlier => ∃ s s', c.CommittedAt later.transaction s ∧
      c.CommittedAt earlier.transaction s' ∧ s' ≤ s := by
  refine List.Pairwise.filter _ (List.pairwise_flatMap.mpr ⟨fun commit hcommit => ?_, ?_⟩)
  · refine List.Pairwise.imp_of_mem (R := fun _ _ => True) (fun hd hd' _ => ?_)
      (List.pairwise_of_forall fun _ _ => trivial)
    have hat := fun {deed : Deed} (h : deed ∈ commit.deeds) =>
      (⟨commit, hcommit, (sound.committed hcommit h).symm, rfl⟩ :
        c.CommittedAt deed.transaction commit.sequence)
    exact ⟨_, _, hat hd, hat hd', Int.le_refl _⟩
  · refine List.Pairwise.imp_of_mem (fun {later earlier} hl he hlt deed hdeed deed' hdeed' => ?_)
      sound.order
    exact ⟨_, _, ⟨later, hl, (sound.committed hl hdeed).symm, rfl⟩,
      ⟨earlier, he, (sound.committed he hdeed').symm, rfl⟩, Int.le_of_lt hlt⟩

end Chronicle

/-! ## 2. The relation -/

/-- The logs hold what history says is pending. -/
structure Work.Shows (work : Work) (c : Chronicle) : Prop where
  statement : ∀ {id : Int} {txn : Transaction}, work id = some txn → c.statement id = txn.statement
  idle : ∀ {id : Int}, work id = none → c.pending id = []
  logged : ∀ (id : Int) (tid : TableId) (row : RowHandle),
    List.Forall₂ LogEntry.Matches (rowLog tid row (work.log id)) (c.writes id tid row)

/-- The chains of a table show the deeds to its rows. -/
structure Table.Shows (l : Ledger) (c : Chronicle) (tid : TableId) (table : Table) : Prop where
  /-- Rows with deeds have been given their handles. -/
  born : ∀ {id : Int} {row : RowHandle}, c.writes id tid row ++ c.settled tid row ≠ [] →
    row.val < table.nextHandle
  /-- Nothing is done to a row after its deletion. -/
  final : ∀ (id : Int) (row : RowHandle),
    ∀ deed ∈ (c.writes id tid row ++ c.settled tid row).tail, deed.record?.isSome = true
  /-- Whoever writes to a row knew all that was committed of it. -/
  recent : ∀ {id snapshot : Int} {row : RowHandle}, l.active[id]? = some snapshot →
    c.writes id tid row ≠ [] → ∀ deed ∈ c.settled tid row,
      ∃ s ≤ snapshot, c.CommittedAt deed.transaction s
  notes : ∀ {row : RowHandle} {sequence : Int}, (row, sequence) ∈ table.pendingDeletes →
    ∃ deed earlier, c.settled tid row = deed :: earlier ∧ deed.record? = none ∧
      c.CommittedAt deed.transaction sequence
  chains : ∀ (id : Int) (row : RowHandle), (∀ other, other ≠ id → c.writes other tid row = []) →
    Chain.Shows l (c.writes id tid row ++ c.settled tid row) (table.chainOf row)

/-- The store shows its history. -/
structure Store.Shows (store : Store) (work : Work) (c : Chronicle) : Prop where
  sound : c.Sound
  ledger : store.ledger.Attests c
  work : work.Shows c
  tables : ∀ {tid : TableId} {table : Table}, store.tables[tid]? = some table →
    table.Shows store.ledger c tid
  known : ∀ {id : Int} {tid : TableId} {row : RowHandle},
    c.writes id tid row ++ c.settled tid row ≠ [] → tid < store.tables.size

/-! ## 3. The deeds that are pending -/

namespace Work.Shows

variable {l : Ledger} {c : Chronicle} {work : Work} {tid : TableId} {row : RowHandle} {id : Int}

/-- The later deeds of a writer are those of its later statements. -/
theorem pairwise_writes (shows : work.Shows c) (wok : Work.Ok l work) (id : Int)
    (tid : TableId) (row : RowHandle) :
    (c.writes id tid row).Pairwise fun later earlier => earlier.statement ≤ later.statement := by
  have hlogged := shows.logged id tid row
  have hsorted : (rowLog tid row (work.log id)).Pairwise
      fun later earlier => earlier.statement ≤ later.statement := by
    cases hwork : work id with
    | none =>
      rw [Work.log, hwork]
      exact List.Pairwise.nil
    | some txn =>
      rw [Work.log_eq hwork]
      exact (wok.txn hwork).sorted.filter _
  -- Deeds match the log entry by entry, and the log is in order.
  generalize rowLog tid row (work.log id) = log at hlogged hsorted
  generalize c.writes id tid row = deeds at hlogged
  induction hlogged with
  | nil => exact List.Pairwise.nil
  | @cons entry deed log deeds hmatch hrest ih =>
    obtain ⟨hfirst, hsorted⟩ := List.pairwise_cons.mp hsorted
    refine List.pairwise_cons.mpr ⟨fun earlier hearlier => ?_, ih hsorted⟩
    obtain ⟨entry', hentry', hmatch'⟩ := hrest.exists_of_mem hearlier
    rw [← hmatch.statement, ← hmatch'.statement]
    exact hfirst entry' hentry'

/-- Whoever has deeds pending is running. -/
theorem running (shows : work.Shows c) (wok : Work.Ok l work)
    (h : c.writes id tid row ≠ []) : ∃ s, l.active[id]? = some s :=
  wok.running_of_rowLog fun hnil => h ((shows.logged id tid row).eq_nil.mp hnil)

/-- Whoever is behind a deed runs or has committed. -/
theorem ends (shows : work.Shows c) (wok : Work.Ok l work) (sound : c.Sound) {deed : Deed}
    (h : deed ∈ c.writes id tid row ++ c.settled tid row) :
    (∃ s, l.active[deed.transaction]? = some s) ∨ ∃ s, c.CommittedAt deed.transaction s := by
  rcases List.mem_append.mp h with h | h
  · rw [Chronicle.transaction_of_mem_writes sound h]
    exact Or.inl (shows.running wok (List.ne_nil_of_mem h))
  · exact Or.inr (Chronicle.committedAt_of_mem_settled sound h)

/-- The number of whoever is behind a deed fits into a stamp. -/
theorem known_deed (shows : work.Shows c) (lok : l.Ok) (wok : Work.Ok l work) (sound : c.Sound)
    (attests : l.Attests c) (few : l.lastId < 2 ^ 40) {deed : Deed}
    (h : deed ∈ c.writes id tid row ++ c.settled tid row) :
    0 < deed.transaction ∧ deed.transaction < 2 ^ 40 := by
  rcases shows.ends wok sound h with ⟨s, hs⟩ | ⟨s, hs⟩
  · have hactive := lok.active hs
    exact ⟨hactive.1, Int.lt_of_le_of_lt hactive.2.1 few⟩
  · have hended := attests.ended hs
    exact ⟨hended.1, Int.lt_of_le_of_lt hended.2.1 few⟩

/-- Deeds are those of the statements so far. -/
theorem statement_le (shows : work.Shows c) (wok : Work.Ok l work) {txn : Transaction}
    (running : work id = some txn) {deed : Deed} (h : deed ∈ c.writes id tid row) :
    deed.statement ≤ txn.statement := by
  obtain ⟨entry, hentry, hmatch⟩ := (shows.logged id tid row).exists_of_mem h
  rw [Work.log_eq running] at hentry
  rw [← hmatch.statement]
  exact (wok.txn running).upTo entry (List.mem_of_mem_filter hentry)

end Work.Shows

end SnapshotStore
