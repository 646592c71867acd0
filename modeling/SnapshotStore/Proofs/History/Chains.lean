import Mathlib
import SnapshotStore.Proofs.History.Store

/-!
# Chains are in order

In every store that can be reached each chain is read from the top as this: what the one running writer
of the row has written, its later statements first; then what was committed, the later commits first;
and if the row is deleted, the mark is on the newest version. Nothing of a transaction that aborted is
left (`Service.Reached.chain_inOrder`). All of it is read off the deeds that the chain shows.
-/

namespace SnapshotStore

namespace Chain

/-- A chain in order among the transactions of a ledger, after this history. -/
structure InOrder (l : Ledger) (history : List Event) (chain : Chain) : Prop where
  occupied : chain ≠ []
  /-- The versions of one running writer lie on top of committed ones. The older of two committed ones
  has no larger commit sequence, as far as the ledger still knows it, and was committed before the newer
  or together with it. -/
  layers : ∃ (top settled : Chain) (writer : Int), chain = top ++ settled ∧
    (∀ v ∈ top, v.created.transaction = writer ∧ l.isActive writer = true ∧
      l.isCommitted writer = false) ∧
    top.Pairwise (fun newer older => older.created.statement ≤ newer.created.statement) ∧
    (∀ v ∈ settled, Event.committed v.created.transaction ∈ history ∧
      l.isCommitted v.created.transaction = true) ∧
    settled.Pairwise (fun newer older => ∃ s s',
      l.commitSequence? newer.created.transaction = some s ∧
        l.commitSequence? older.created.transaction = some s' ∧ s' ≤ s) ∧
    settled.Pairwise fun newer older => newer.created.transaction = older.created.transaction ∨
      [Event.committed older.created.transaction,
        .committed newer.created.transaction].Sublist history
  /-- Only the newest version may be marked. -/
  unmarked : ∀ v ∈ chain.tail, v.deleted = none
  marked : ∀ v ∈ chain, ∀ stamp, v.deleted = some stamp →
    (Event.committed stamp.transaction ∈ history ∧ l.isCommitted stamp.transaction = true) ∨
      l.isActive stamp.transaction = true
  /-- Nothing is left of those who aborted. -/
  unaborted : ∀ v ∈ chain, Event.aborted v.created.transaction ∉ history ∧
    ∀ stamp, v.deleted = some stamp → Event.aborted stamp.transaction ∉ history

end Chain

/-! ## 1. From deeds to stamps -/

namespace Deed

variable {deeds : List Deed}

/-- The stamps of the versions that deeds have made. -/
def stamps (deeds : List Deed) : List Stamp :=
  (deeds.filter (·.record?.isSome)).map fun deed => .of deed.transaction deed.statement

theorem stamps_append (deeds deeds' : List Deed) :
    stamps (deeds ++ deeds') = stamps deeds ++ stamps deeds' := by
  unfold stamps
  rw [List.filter_append, List.map_append]

theorem exists_of_mem_stamps {stamp : Stamp} (h : stamp ∈ stamps deeds) :
    ∃ deed ∈ deeds, stamp.transaction = deed.transaction := by
  obtain ⟨deed, hdeed, rfl⟩ := List.mem_map.mp h
  exact ⟨deed, List.mem_of_mem_filter hdeed, rfl⟩

/-- Stamps are in the order of the deeds. -/
theorem pairwise_stamps {R : Deed → Deed → Prop} {S : Stamp → Stamp → Prop}
    (h : deeds.Pairwise R)
    (hstamps : ∀ a b, R a b → S (.of a.transaction a.statement) (.of b.transaction b.statement)) :
    (stamps deeds).Pairwise S :=
  (h.filter _).map _ hstamps

end Deed

namespace Chain

variable {l : Ledger} {deeds : List Deed} {chain : Chain}

/-- Each version was created by the deed that gave the row its record. -/
theorem Spells.map_created (h : Spells deeds chain) :
    chain.map (·.created) = Deed.stamps deeds := by
  induction deeds generalizing chain with
  | nil =>
    cases h
    rfl
  | cons deed deeds ih =>
    cases hrecord : deed.record? with
    | some record =>
      obtain ⟨v, older, rfl, _, hcreated, _, hrest⟩ := (spells_record hrecord).mp h
      rw [Deed.stamps, List.filter_cons, hrecord, if_pos (by simp), List.map_cons, List.map_cons,
        hcreated, ih hrest]
      rfl
    | none =>
      obtain ⟨v, older, rfl, _, _, hrest⟩ := (spells_deletion hrecord).mp h
      rw [Deed.stamps, List.filter_cons, hrecord, if_neg (by simp), ← Deed.stamps, ← ih hrest,
        List.map_cons, List.map_cons, Version.created_mark]

/-- Behind a version is whoever did one of the deeds. -/
theorem Spells.exists_creator (h : Spells deeds chain) {v : Version} (hv : v ∈ chain) :
    ∃ deed ∈ deeds, v.created.transaction = deed.transaction := by
  have hin := List.mem_map_of_mem (f := (·.created)) hv
  rw [h.map_created] at hin
  exact Deed.exists_of_mem_stamps hin

/-- The mark on the newest version is that of the last deed. -/
theorem Spells.deleted_newest {v : Version} {older : Chain} (h : Spells deeds (v :: older))
    (hids : ∀ deed ∈ deeds, 0 < deed.transaction ∧ deed.transaction < 2 ^ 40) {stamp : Stamp}
    (hstamp : v.deleted = some stamp) : ∃ deed ∈ deeds, stamp.transaction = deed.transaction := by
  cases deeds with
  | nil => cases h
  | cons deed deeds =>
    cases hrecord : deed.record? with
    | some record =>
      obtain ⟨w, _, heq, _, _, hmarked, _⟩ := (spells_record hrecord).mp h
      rw [(List.cons.inj heq).1, Version.deleted_eq_none.mpr (Version.isMarked_eq_false.mp hmarked)]
        at hstamp
      cases hstamp
    | none =>
      obtain ⟨w, _, heq, _, _, _⟩ := (spells_deletion hrecord).mp h
      obtain ⟨hpos, hfits⟩ := hids deed List.mem_cons_self
      rw [(List.cons.inj heq).1, Version.deleted_mark hpos hfits] at hstamp
      cases hstamp
      exact ⟨deed, List.mem_cons_self, rfl⟩

/-- Behind a mark is whoever did one of the deeds. -/
theorem Spells.exists_marker {dropped : Chain} (h : Spells deeds (chain ++ dropped))
    (tidy : Tidy chain) (hids : ∀ deed ∈ deeds, 0 < deed.transaction ∧ deed.transaction < 2 ^ 40)
    {v : Version} (hv : v ∈ chain) {stamp : Stamp} (hstamp : v.deleted = some stamp) :
    ∃ deed ∈ deeds, stamp.transaction = deed.transaction := by
  cases chain with
  | nil => cases hv
  | cons newest older =>
    rcases List.mem_cons.mp hv with rfl | hv
    · exact h.deleted_newest hids hstamp
    · have hunmarked := tidy.unmarked v hv
      rw [Version.deleted_eq_none.mpr (Version.isMarked_eq_false.mp hunmarked)] at hstamp
      cases hstamp

/-- Two parts of what was put together from two parts. -/
theorem exists_split {stamps stamps' : List Stamp} {dropped : Chain}
    (h : (chain ++ dropped).map (·.created) = stamps ++ stamps') :
    ∃ top settled, chain = top ++ settled ∧ top.map (·.created) <+: stamps ∧
      settled.map (·.created) <+: stamps' := by
  rw [List.map_append] at h
  have hchain := List.take_append_drop stamps.length chain
  refine ⟨chain.take stamps.length, chain.drop stamps.length, hchain.symm, ?_, ?_⟩
  · rw [List.map_take]
    rcases List.append_eq_append_iff.mp h with ⟨rest, hstamps, _⟩ | ⟨rest, hmap, _⟩
    · rw [hstamps]
      exact (List.take_prefix _ _).trans (List.prefix_append _ _)
    · rw [hmap, List.take_left]
  · rw [List.map_drop]
    rcases List.append_eq_append_iff.mp h with ⟨rest, hstamps, _⟩ | ⟨rest, hmap, hrest⟩
    · rw [List.drop_eq_nil_of_le (by rw [hstamps, List.length_append]; omega)]
      exact List.nil_prefix
    · rw [hmap, List.drop_left, hrest]
      exact List.prefix_append _ _

end Chain

/-! ## 2. Every chain -/

section Deeds

variable {l : Ledger} {history : List Event} {work : Work} {tid : TableId} {row : RowHandle}
  {writer : Int} {deed : Deed} (attests : l.Attests (.of history))
include attests

/-- Whoever did a committed deed has committed in history, and the ledger knows of it. -/
theorem Ledger.Attests.settled (lok : l.Ok) (h : deed ∈ (Chronicle.of history).settled tid row) :
    Event.committed deed.transaction ∈ history ∧ l.isCommitted deed.transaction = true := by
  have sound := Chronicle.sound_of history
  obtain ⟨s, hs⟩ := Chronicle.committedAt_of_mem_settled sound h
  exact ⟨hs.mem, attests.isCommitted lok sound hs⟩

/-- Who is behind a deed to the row, running or committed, is not among those who aborted. -/
theorem Work.Shows.not_aborted (worked : work.Shows (.of history)) (wok : Work.Ok l work)
    (h : deed ∈ (Chronicle.of history).writes writer tid row ++
      (Chronicle.of history).settled tid row) : Event.aborted deed.transaction ∉ history := by
  intro haborted
  obtain ⟨_, hinactive, hnot⟩ := attests.aborted (Chronicle.mem_aborted_of haborted)
  rcases worked.ends wok (Chronicle.sound_of history) h with ⟨s, hs⟩ | ⟨s, hs⟩
  · rw [hs] at hinactive
    cases hinactive
  · exact hnot s hs

end Deeds

/-- What a table shows is in order. -/
theorem Table.Shows.inOrder {l : Ledger} {history : List Event} {work : Work} {tid : TableId}
    {table : Table} (shows : table.Shows l (.of history) tid) (ok : Ok l work tid [] table)
    (lok : l.Ok) (wok : Work.Ok l work) (attests : l.Attests (.of history))
    (worked : work.Shows (.of history)) (few : l.lastId < 2 ^ 40) {row : RowHandle} {chain : Chain}
    (here : table.rows[row]? = some chain) : chain.InOrder l history := by
  have sound := Chronicle.sound_of history
  have hchain : table.chainOf row = chain := chainOf_eq here
  obtain ⟨writer, _, hfree⟩ := ok.held row
  have hothers : ∀ other, other ≠ writer → (Chronicle.of history).writes other tid row = [] :=
    fun other hne => (worked.logged other tid row).eq_nil.mp (hfree other hne)
  obtain ⟨dropped, hspells, _⟩ := shows.chains writer row hothers
  have htidy := ok.tidy row
  rw [hchain] at hspells htidy
  have hids : ∀ deed ∈ (Chronicle.of history).writes writer tid row ++
      (Chronicle.of history).settled tid row, 0 < deed.transaction ∧ deed.transaction < 2 ^ 40 :=
    fun _ hdeed => worked.known_deed lok wok sound attests few hdeed
  obtain ⟨top, settled, hsplit, htop, hsettled⟩ :=
    Chain.exists_split (hspells.map_created.trans (Deed.stamps_append _ _))
  have hcommits := Chronicle.pairwise_settled sound tid row
  refine ⟨ok.occupied here, ⟨top, settled, writer, hsplit, ?_, ?_, ?_, ?_, ?_⟩, fun v hv => ?_,
    fun v hv stamp hstamp => ?_, fun v hv => ⟨?_, fun stamp hstamp => ?_⟩⟩
  · intro v hv
    obtain ⟨deed, hdeed, heq⟩ :=
      Deed.exists_of_mem_stamps (htop.subset (List.mem_map_of_mem hv))
    obtain ⟨s, hs⟩ := worked.running wok (List.ne_nil_of_mem hdeed)
    rw [heq, Chronicle.transaction_of_mem_writes sound hdeed]
    exact ⟨rfl, Ledger.isActive_iff.mpr ⟨s, hs⟩, Ledger.not_isCommitted_of_active lok hs⟩
  · have hsorted := Deed.pairwise_stamps
      (S := fun newer older => older.statement ≤ newer.statement)
      (worked.pairwise_writes wok writer tid row)
      (fun a b hle => Nat.le_min.mpr ⟨Nat.le_trans (Nat.min_le_left _ _) hle, Nat.min_le_right _ _⟩)
    exact List.pairwise_map.mp (hsorted.sublist htop.sublist)
  · intro v hv
    obtain ⟨deed, hdeed, heq⟩ :=
      Deed.exists_of_mem_stamps (hsettled.subset (List.mem_map_of_mem hv))
    rw [heq]
    exact attests.settled lok hdeed
  · have hsorted := Deed.pairwise_stamps
      (S := fun newer older => ∃ s s', l.commitSequence? newer.transaction = some s ∧
        l.commitSequence? older.transaction = some s' ∧ s' ≤ s) hcommits
      (fun a b ⟨_, _, hs, hs', hle⟩ => attests.commitSequence_le hs hs' hle)
    exact List.pairwise_map.mp (hsorted.sublist hsettled.sublist)
  · have hsorted := Deed.pairwise_stamps
      (S := fun newer older => newer.transaction = older.transaction ∨
        [Event.committed older.transaction, .committed newer.transaction].Sublist history) hcommits
      (fun a b ⟨_, _, hs, hs', hle⟩ => hs.eq_or_before hs' hle)
    exact List.pairwise_map.mp (hsorted.sublist hsettled.sublist)
  · exact Version.deleted_eq_none.mpr (Version.isMarked_eq_false.mp (htidy.unmarked v hv))
  · obtain ⟨deed, hdeed, heq⟩ := hspells.exists_marker htidy hids hv hstamp
    rw [heq]
    rcases worked.ends wok sound hdeed with ⟨s, hs⟩ | ⟨s, hs⟩
    · exact Or.inr (Ledger.isActive_iff.mpr ⟨s, hs⟩)
    · exact Or.inl ⟨hs.mem, attests.isCommitted lok sound hs⟩
  · obtain ⟨deed, hdeed, heq⟩ := hspells.exists_creator (List.mem_append_left _ hv)
    rw [heq]
    exact worked.not_aborted attests wok hdeed
  · obtain ⟨deed, hdeed, heq⟩ := hspells.exists_marker htidy hids hv hstamp
    rw [heq]
    exact worked.not_aborted attests wok hdeed

/-- In every store that can be reached, with fewer than 2^40 transactions so far, the chain of every
row is in order. -/
theorem Service.Reached.chain_inOrder {history : List Event} {service : Service}
    (reached : Reached history service) (few : service.store.ledger.lastId < 2 ^ 40)
    {tid : TableId} {table : Table} (here : service.store.tables[tid]? = some table)
    {row : RowHandle} {chain : Chain} (there : table.rows[row]? = some chain) :
    chain.InOrder service.store.ledger history := by
  obtain ⟨work, ok, shows⟩ := reached.shows few
  exact (shows.tables here).inOrder (ok.store.tables here) ok.store.ledger ok.store.runs shows.ledger
    shows.work few there

namespace Service

/-- A row is inserted and committed, then updated by the second session, which has not committed. -/
def updateInFlight : List Request :=
  [.begin 1 1, .insert 1 0 (byteRecord 1), .commit 1 .session, .begin 2 2,
    .update 2 0 firstRow (byteRecord 2)]

/-- The chain of the row is in order while the update is in flight. -/
theorem updateInFlight_inOrder : ∃ chain : Chain, chain.length = 2 ∧
    chain.InOrder (small.run updateInFlight).1.store.ledger (small.happenings updateInFlight) := by
  have reached := reached_small.run updateInFlight
  have hlength : ((small.run updateInFlight).1.store.tables[0]?.bind
      (·.chainLength? firstRow)) = some 2 := by
    decide +kernel
  obtain ⟨table, here, hchain⟩ := Option.bind_eq_some_iff.mp hlength
  obtain ⟨chain, there, hlength⟩ := Option.map_eq_some_iff.mp hchain
  exact ⟨chain, hlength, reached.chain_inOrder (by decide +kernel) here there⟩

end Service

end SnapshotStore
