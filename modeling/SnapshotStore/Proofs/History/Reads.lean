import Mathlib
import SnapshotStore.Proofs.History.Store

/-!
# What readers find

The reading of a chain is decided by the first deed to the row that the reader sees: its record, or
nothing if it was a deletion (`Chain.Shows.read`). That a reader who sees a deed sees all deeds before
it, too, is what the order of the commits, the order of the statements and the refusal of conflicting
writes are for; and so the rows that a transaction finds are those that history has for it
(`Store.Shows.read`).
-/

namespace SnapshotStore

/-- The record that a reader gets of a row. -/
def Reading.record? : Reading → Option Record
  | .visible version _ => some version.record
  | .deleted | .invisible => none

/-- The stamp that the deed has left in the store. -/
def Deed.stamp (deed : Deed) : Stamp := .of deed.transaction deed.statement

namespace Chain

variable {l : Ledger} {view : View} {deeds : List Deed} {chain : Chain}

/-! ## 1. One chain -/

/-- Whoever sees a deletion sees what was deleted. -/
theorem record?_read_mark {v : Version} {older : Chain} {stamp : Stamp}
    (hmarked : v.isMarked = false) (hdeleted : (v.mark stamp).deleted = some stamp)
    (hbelow : view.sees l stamp = true → view.sees l v.created = true) :
    (Chain.read l view (v.mark stamp :: older)).record? =
      if view.sees l stamp then none else (Chain.read l view (v :: older)).record? := by
  have hunmarked := Version.deleted_eq_none.mpr (Version.isMarked_eq_false.mp hmarked)
  rw [read, read, Version.created_mark, hdeleted, hunmarked, Option.any_some, Option.any_none]
  by_cases hsees : view.sees l stamp = true
  · rw [if_pos hsees, if_pos (hbelow hsees), if_pos hsees]
    rfl
  · rw [if_neg hsees, if_neg hsees, if_neg Bool.false_ne_true]
    split
    · simp only [Reading.record?, Version.record_mark]
    · rfl

/-- A row is read as the first of its deeds that the reader sees has left it. -/
theorem Spells.read (h : Spells deeds chain)
    (ids : ∀ deed ∈ deeds, 0 < deed.transaction ∧ deed.transaction < 2 ^ 40)
    (final : ∀ deed ∈ deeds.tail, deed.record?.isSome = true)
    (below : deeds.Pairwise fun later earlier =>
      view.sees l later.stamp = true → view.sees l earlier.stamp = true) :
    (Chain.read l view chain).record? =
      (deeds.find? (view.sees l ·.stamp)).bind (·.record?) := by
  induction deeds generalizing chain with
  | nil =>
    cases h
    rfl
  | cons deed deeds ih =>
    have hrest := fun {chain : Chain} (h : Spells deeds chain) =>
      ih h (fun d hd => ids d (List.mem_cons_of_mem _ hd))
        (fun d hd => final d (List.mem_of_mem_tail hd)) below.tail
    cases hrecord : deed.record? with
    | some record =>
      obtain ⟨v, older, rfl, hv, hcreated, hmarked, hspells⟩ := (spells_record hrecord).mp h
      have hunmarked := Version.deleted_eq_none.mpr (Version.isMarked_eq_false.mp hmarked)
      rw [List.find?_cons, Chain.read, hunmarked, Option.any_none, if_neg Bool.false_ne_true,
        show v.created = deed.stamp from hcreated]
      cases hsees : view.sees l deed.stamp with
      | true => simp only [if_pos, Reading.record?, hv, Option.bind_some, hrecord]
      | false => exact hrest hspells
    | none =>
      obtain ⟨v, older, rfl, hmarked, _, hspells⟩ := (spells_deletion hrecord).mp h
      obtain ⟨hpos, hfits⟩ := ids deed List.mem_cons_self
      have hbelow : view.sees l deed.stamp = true → view.sees l v.created = true := by
        cases deeds with
        | nil => cases hspells
        | cons previous deeds =>
          -- What was deleted is the record that the deed before gave the row.
          obtain ⟨record, hprevious⟩ :=
            Option.isSome_iff_exists.mp (final previous List.mem_cons_self)
          obtain ⟨w, rest, heq, _, hcreated, _⟩ := (spells_record hprevious).mp hspells
          obtain ⟨rfl, _⟩ := List.cons.inj heq
          rw [hcreated]
          exact (List.pairwise_cons.mp below).1 previous List.mem_cons_self
      rw [List.find?_cons]
      refine (record?_read_mark hmarked (Version.deleted_mark hpos hfits) hbelow).trans ?_
      rw [hrest hspells]
      cases hsees : view.sees l deed.stamp with
      | true => simp only [Deed.stamp] at hsees; simp [hsees, hrecord]
      | false => simp only [Deed.stamp] at hsees; simp [hsees]

/-- What is dropped is out of every reader's reach. -/
theorem read_append {dropped : Chain} (viewing : Viewing l view)
    (h : ∃ v ∈ chain, l.committedBy v.created.transaction l.horizon = true) :
    (Chain.read l view (chain ++ dropped)).record? = (Chain.read l view chain).record? := by
  induction chain with
  | nil =>
    obtain ⟨_, hv, _⟩ := h
    cases hv
  | cons w older ih =>
    rw [List.cons_append, read, read]
    by_cases hsees : view.sees l w.created = true
    · rw [if_pos hsees, if_pos hsees]
      split <;> rfl
    · rw [if_neg hsees, if_neg hsees]
      obtain ⟨v, hv, hsettled⟩ := h
      rcases List.mem_cons.mp hv with rfl | hv
      · exact absurd (viewing.sees hsettled) hsees
      · exact ih ⟨v, hv, hsettled⟩

/-- It is enough to show the deeds as far as somebody reads. -/
theorem Shows.read (h : Shows l deeds chain) (viewing : Viewing l view)
    (ids : ∀ deed ∈ deeds, 0 < deed.transaction ∧ deed.transaction < 2 ^ 40)
    (final : ∀ deed ∈ deeds.tail, deed.record?.isSome = true)
    (below : deeds.Pairwise fun later earlier =>
      view.sees l later.stamp = true → view.sees l earlier.stamp = true) :
    (Chain.read l view chain).record? =
      (deeds.find? (view.sees l ·.stamp)).bind (·.record?) := by
  obtain ⟨dropped, hspells, hdropped⟩ := h
  have hfull := hspells.read ids final below
  rcases hdropped with rfl | hsettled | ⟨rfl, deed, earlier, rfl, hrecord, hsettled⟩
  · rwa [List.append_nil] at hfull
  · rwa [read_append viewing hsettled] at hfull
  · have hsees : view.sees l deed.stamp = true := viewing.sees hsettled
    rw [List.find?_cons, hsees]
    simp only [Option.bind_some, hrecord]
    rfl

end Chain

/-! ## 2. Which deeds a transaction sees -/

section Sight

variable {l : Ledger} {c : Chronicle} {work : Work} {txn : Transaction} {own : Bool} {deed : Deed}
  {tid : TableId} {row : RowHandle}

/-- A running transaction reads under a view that belongs to it. -/
theorem Transaction.viewing (lok : l.Ok) (active : l.active[txn.id]? = some txn.snapshot) :
    Chain.Viewing l (txn.view own) :=
  ⟨Ledger.not_isCommitted_of_active lok active, Ledger.horizon_le_snapshot active⟩

/-- It sees its own deeds, but for those of the current statement if it asks so. Statements beyond the
greatest that a stamp holds are one to it. -/
theorem Transaction.sees_own (hid : deed.transaction = txn.id) :
    (txn.view own).sees l deed.stamp = (own ||
      decide (min deed.statement Stamp.maxStatement ≠ min txn.statement Stamp.maxStatement)) := by
  rw [View.sees, Deed.stamp, Stamp.of, Transaction.view]
  dsimp only
  rw [if_pos hid, Bool.eq_iff_iff]
  simp

/-- It sees the deeds of others who committed under its snapshot. -/
theorem Transaction.sees_committed (attests : l.Attests c)
    (active : l.active[txn.id]? = some txn.snapshot) {s : Int}
    (h : c.CommittedAt deed.transaction s) :
    (txn.view own).sees l deed.stamp = decide (s ≤ txn.snapshot) := by
  have hne : deed.transaction ≠ txn.id := by
    intro heq
    have hnone := (attests.ended h).2.2.2
    rw [heq, active] at hnone
    cases hnone
  rw [View.sees, Deed.stamp, Stamp.of, Transaction.view]
  dsimp only
  rw [if_neg hne, Ledger.isVisible, beq_false_of_ne hne, Bool.false_or,
    attests.committedBy h (Ledger.horizon_le_snapshot active)]

/-- It does not see the deeds of others who are running. -/
theorem Transaction.sees_running (lok : l.Ok) (hne : deed.transaction ≠ txn.id) {s : Int}
    (active : l.active[deed.transaction]? = some s) : (txn.view own).sees l deed.stamp = false := by
  rw [View.sees, Deed.stamp, Stamp.of, Transaction.view]
  dsimp only
  rw [if_neg hne, Ledger.isVisible, beq_false_of_ne hne, Bool.false_or, ← Bool.not_eq_true]
  intro h
  have hcommitted := Ledger.isCommitted_of_committedBy h
  rw [Ledger.not_isCommitted_of_active lok active] at hcommitted
  cases hcommitted

/-! ## 3. The rows of history -/

/-- The last of its own deeds to a row that a transaction sees. -/
theorem find?_ownDeeds {id : Int} {p : Deed → Bool}
    (h : ∀ deed ∈ c.writes id tid row, p deed = (own || decide (deed.statement ≠ c.statement id))) :
    (c.ownDeeds id own).find? (·.on tid row) = (c.writes id tid row).find? p := by
  rw [Chronicle.ownDeeds, Chronicle.writes, List.find?_filter, List.find?_filter]
  refine List.find?_congr fun deed hdeed => ?_
  cases hon : deed.on tid row with
  | false => simp
  | true =>
    rw [h deed (List.mem_filter.mpr ⟨hdeed, hon⟩)]
    simp

/-- The last deed to a row among those committed under a snapshot. -/
theorem find?_deedsUnder {snapshot : Int} {p : Deed → Bool}
    (h : ∀ commit ∈ c.commits, ∀ deed ∈ commit.deeds, p deed = decide (commit.sequence ≤ snapshot)) :
    (c.deedsUnder snapshot).find? (·.on tid row) = (c.settled tid row).find? p := by
  rw [Chronicle.deedsUnder, Chronicle.settled]
  generalize c.commits = commits at h
  -- The deeds of a commit are under the snapshot all together or not at all.
  induction commits with
  | nil => rfl
  | cons commit commits ih =>
    have hrest := ih fun later hlater => h later (List.mem_cons_of_mem _ hlater)
    have hhere := h commit List.mem_cons_self
    rw [List.flatMap_cons, List.filter_append, List.find?_append, List.filter_cons, ← hrest]
    split
    · rename_i hunder
      rw [List.flatMap_cons, List.find?_append, List.find?_filter]
      congr 1
      refine List.find?_congr fun deed hdeed => ?_
      rw [hhere deed hdeed, hunder]
      simp
    · rename_i hlater
      have hnone : ((commit.deeds.filter (·.on tid row)).find? p) = none := by
        rw [List.find?_eq_none]
        intro deed hdeed
        rw [hhere deed (List.mem_of_mem_filter hdeed)]
        exact hlater
      rw [hnone, Option.none_or]

end Sight

section Deeds

variable {store : Store} {work : Work} {c : Chronicle} (shows : store.Shows work c)
  (ok : store.Ok work) {tid : TableId} {row : RowHandle} {writer : Int} {deed : Deed}
include shows ok

theorem Store.Shows.known_deed (few : store.ledger.lastId < 2 ^ 40)
    (h : deed ∈ c.writes writer tid row ++ c.settled tid row) :
    0 < deed.transaction ∧ deed.transaction < 2 ^ 40 :=
  shows.work.known_deed ok.ledger ok.runs shows.sound shows.ledger few h

/-- The deeds of another running transaction are not seen. -/
theorem Store.Shows.not_sees {txn : Transaction} {own : Bool}
    (hne : writer ≠ txn.id) (h : deed ∈ c.writes writer tid row) :
    (txn.view own).sees store.ledger deed.stamp = false := by
  have htransaction := Chronicle.transaction_of_mem_writes shows.sound h
  obtain ⟨s, hs⟩ := shows.work.running ok.runs (List.ne_nil_of_mem h)
  exact Transaction.sees_running ok.ledger (by rw [htransaction]; exact hne)
    (by rw [htransaction]; exact hs)

end Deeds

/-- A running transaction reads of each row what the last of its deeds that it sees has left. -/
theorem Store.Shows.read_deeds {store : Store} {work : Work} {c : Chronicle}
    (shows : store.Shows work c) (ok : store.Ok work) (few : store.ledger.lastId < 2 ^ 40)
    {txn : Transaction} (running : work txn.id = some txn) {tid : TableId} {table : Table}
    (here : store.tables[tid]? = some table) {writer : Int} {row : RowHandle}
    (hothers : ∀ other, other ≠ writer → c.writes other tid row = []) (own : Bool) :
    (Chain.read store.ledger (txn.view own) (table.chainOf row)).record? =
      ((c.writes writer tid row ++ c.settled tid row).find?
        ((txn.view own).sees store.ledger ·.stamp)).bind (·.record?) := by
  have lok := ok.ledger
  have hactive := ok.runs.running running
  have htable := shows.tables here
  have hcommitted : ∀ {deed : Deed} {s : Int}, c.CommittedAt deed.transaction s →
      (txn.view own).sees store.ledger deed.stamp = decide (s ≤ txn.snapshot) :=
    fun h => Transaction.sees_committed shows.ledger hactive h
  have hbelow : (c.writes writer tid row ++ c.settled tid row).Pairwise fun later earlier =>
      (txn.view own).sees store.ledger later.stamp = true →
        (txn.view own).sees store.ledger earlier.stamp = true := by
    refine List.pairwise_append.mpr ⟨?_, ?_, fun later hlater earlier hearlier hsees => ?_⟩
    · refine (shows.work.pairwise_writes ok.runs writer tid row).imp_of_mem
        fun {later earlier} hlater hearlier hle hsees => ?_
      by_cases heq : writer = txn.id
      · rw [heq] at hlater hearlier
        rw [Transaction.sees_own (Chronicle.transaction_of_mem_writes shows.sound hlater)] at hsees
        rw [Transaction.sees_own (Chronicle.transaction_of_mem_writes shows.sound hearlier)]
        have hupTo := shows.work.statement_le ok.runs running hlater
        simp only [Bool.or_eq_true, decide_eq_true_eq] at hsees ⊢
        exact hsees.imp_right fun hne heq => hne (by omega)
      · rw [shows.not_sees ok heq hlater] at hsees
        cases hsees
    · refine (Chronicle.pairwise_settled shows.sound tid row).imp
        fun {later earlier} hordered hsees => ?_
      obtain ⟨s, s', hs, hs', hle⟩ := hordered
      rw [hcommitted hs, decide_eq_true_eq] at hsees
      rw [hcommitted hs', decide_eq_true_eq]
      exact Int.le_trans hle hsees
    · by_cases heq : writer = txn.id
      · rw [heq] at hlater
        obtain ⟨s, hs, hat⟩ := htable.recent hactive (List.ne_nil_of_mem hlater) earlier hearlier
        rw [hcommitted hat, decide_eq_true_eq]
        exact hs
      · rw [shows.not_sees ok heq hlater] at hsees
        cases hsees
  exact (htable.chains writer row hothers).read (Transaction.viewing lok hactive)
    (fun _ h => shows.known_deed ok few h) (htable.final writer row) hbelow

/-- A running transaction reads of each row what history has for it. -/
theorem Store.Shows.read {store : Store} {work : Work} {c : Chronicle} (shows : store.Shows work c)
    (ok : store.Ok work) (few : store.ledger.lastId < 2 ^ 40) {txn : Transaction}
    (running : work txn.id = some txn) (short : txn.statement ≤ Stamp.maxStatement)
    {tid : TableId} {table : Table} (here : store.tables[tid]? = some table) (row : RowHandle)
    (own : Bool) : (Chain.read store.ledger (txn.view own) (table.chainOf row)).record? =
      (c.rows tid txn.id txn.snapshot own)[row]? := by
  have hactive := ok.runs.running running
  have hstatement := shows.work.statement running
  obtain ⟨writer, _, hfree⟩ := (ok.tables here).held row
  have hothers : ∀ other, other ≠ writer → c.writes other tid row = [] :=
    fun other hne => (shows.work.logged other tid row).eq_nil.mp (hfree other hne)
  -- What the transaction sees: of its own deeds, and of those that are committed.
  have hown : ∀ deed ∈ c.writes txn.id tid row, (txn.view own).sees store.ledger deed.stamp =
      (own || decide (deed.statement ≠ txn.statement)) := by
    intro deed hdeed
    have hle := shows.work.statement_le ok.runs running hdeed
    rw [Transaction.sees_own (Chronicle.transaction_of_mem_writes shows.sound hdeed),
      Nat.min_eq_left (hle.trans short), Nat.min_eq_left short]
  have hcommitted : ∀ {deed : Deed} {s : Int}, c.CommittedAt deed.transaction s →
      (txn.view own).sees store.ledger deed.stamp = decide (s ≤ txn.snapshot) :=
    fun h => Transaction.sees_committed shows.ledger hactive h
  rw [shows.read_deeds ok few running here hothers, Chronicle.rows, Deed.get_rows,
    List.find?_append, List.find?_append,
    find?_ownDeeds (fun deed hdeed => (hown deed hdeed).trans (by rw [hstatement])),
    find?_deedsUnder fun commit hcommit deed hdeed =>
      hcommitted ⟨commit, hcommit, (shows.sound.committed hcommit hdeed).symm, rfl⟩]
  congr 2
  by_cases heq : writer = txn.id
  · rw [heq]
  · rw [hothers txn.id (Ne.symm heq), List.find?_eq_none.mpr fun deed hdeed => by
      rw [shows.not_sees ok heq hdeed]
      exact Bool.false_ne_true]
    rfl

end SnapshotStore
