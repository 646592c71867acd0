import Mathlib
import SnapshotStore.Proofs.History.Chains
import SnapshotStore.Proofs.History.Reads

/-!
# Two stores with one history

Stores that have been freed of different things may have one history. Their chains then differ in the
versions that one of them has dropped, and their ledgers in whom they have forgotten. What a
transaction asks of a chain comes out alike all the same: whether it may write over the newest version
(`Twins.isWritable_eq`), whether the row owns a key (`Twins.owns_iff`) and what it reads
(`Twins.read_eq`). A chain that shows the deeds as far as somebody reads answers like the one that
shows all of them, and a ledger that has forgotten a commit answers like one that has it on record.
-/

namespace SnapshotStore

/-- A version but for its identity. -/
def Version.content (v : Version) : Record × Stamp × UInt64 := (v.record, v.created, v.deletion)

namespace Chain

/-- The newest version is there to be written over. -/
def isWritable (chain : Chain) (l : Ledger) (transaction snapshot : Int) : Bool :=
  chain.head?.any (·.isWritable l transaction snapshot)

variable {l l' : Ledger} {deeds : List Deed} {chain chain' : Chain}

@[simp] theorem isWritable_cons (newest : Version) (older : Chain) (l : Ledger)
    (transaction snapshot : Int) : isWritable (newest :: older) l transaction snapshot =
      newest.isWritable l transaction snapshot := rfl

/-- What lies below counts if the newest version may yet be undone. -/
theorem owns_cons_cons {spec : KeySpec} {id : Int} {key : Bytes} {newest previous : Version}
    {rest : Chain} : Owns spec l id key (newest :: previous :: rest) ↔
      newest.deleted.any (fun stamp =>
        stamp.transaction == id || l.isCommitted stamp.transaction) = false ∧
      (spec.keyOf newest.record = .ok key ∨ newest.created.transaction ≠ id ∧
        l.isCommitted newest.created.transaction = false ∧
          spec.keyOf previous.record = .ok key) := by
  rw [Owns]
  constructor
  · rintro ⟨hgone, hkey | ⟨hother, hopen, _, _, heq, hkey⟩⟩
    · exact ⟨hgone, Or.inl hkey⟩
    · rw [(List.cons.inj heq).1]
      exact ⟨hgone, Or.inr ⟨hother, hopen, hkey⟩⟩
  · rintro ⟨hgone, hkey | ⟨hother, hopen, hkey⟩⟩
    · exact ⟨hgone, Or.inl hkey⟩
    · exact ⟨hgone, Or.inr ⟨hother, hopen, previous, rest, rfl, hkey⟩⟩

theorem owns_singleton {spec : KeySpec} {id : Int} {key : Bytes} {newest : Version} :
    Owns spec l id key [newest] ↔ newest.deleted.any (fun stamp =>
        stamp.transaction == id || l.isCommitted stamp.transaction) = false ∧
      spec.keyOf newest.record = .ok key := by
  rw [Owns]
  refine and_congr_right fun _ => or_iff_left ?_
  rintro ⟨_, _, _, _, hnil, _⟩
  cases hnil

/-- A deletion that is committed has given the key up. -/
theorem not_owns_of_committed {spec : KeySpec} {id : Int} {key : Bytes} {newest : Version}
    {older : Chain} {stamp : Stamp} (hstamp : newest.deleted = some stamp)
    (hcommitted : l.isCommitted stamp.transaction = true) :
    ¬ Owns spec l id key (newest :: older) := by
  intro howns
  have hnot := howns.1
  rw [hstamp, Option.any_some, hcommitted, Bool.or_true] at hnot
  cases hnot

/-! ## 1. Full chains -/

/-- The deeds settle what the versions are, but for their identities. -/
theorem Spells.map_content (h : Spells deeds chain) (h' : Spells deeds chain') :
    chain.map Version.content = chain'.map Version.content := by
  induction deeds generalizing chain chain' with
  | nil =>
    cases h
    cases h'
    rfl
  | cons deed deeds ih =>
    cases hrecord : deed.record? with
    | some record =>
      obtain ⟨v, older, rfl, hv, hcreated, hmarked, hrest⟩ := (spells_record hrecord).mp h
      obtain ⟨w, older', rfl, hw, hcreated', hmarked', hrest'⟩ := (spells_record hrecord).mp h'
      rw [List.map_cons, List.map_cons, ih hrest hrest', Version.content, Version.content, hv, hw,
        hcreated, hcreated', Version.isMarked_eq_false.mp hmarked,
        Version.isMarked_eq_false.mp hmarked']
    | none =>
      obtain ⟨v, older, rfl, _, _, hrest⟩ := (spells_deletion hrecord).mp h
      obtain ⟨w, older', rfl, _, _, hrest'⟩ := (spells_deletion hrecord).mp h'
      obtain ⟨hnewest, holder⟩ := List.cons.inj (ih hrest hrest')
      obtain ⟨hv, hrest⟩ := Prod.mk.inj hnewest
      have hmark : (v.mark (.of deed.transaction deed.statement)).content =
          (w.mark (.of deed.transaction deed.statement)).content := by
        rw [Version.content, Version.content, Version.record_mark, Version.record_mark,
          Version.created_mark, Version.created_mark, hv, (Prod.mk.inj hrest).1]
        rfl
      rw [List.map_cons, List.map_cons, hmark, holder]

/-- What has been dropped is not asked for by a writer. -/
theorem Shows.exists_full (h : Shows l deeds chain)
    (ids : ∀ deed ∈ deeds, 0 < deed.transaction ∧ deed.transaction < 2 ^ 40) :
    ∃ full, Spells deeds full ∧
      (∀ id snapshot, chain.isWritable l id snapshot = full.isWritable l id snapshot) ∧
      ∀ spec id key, Owns spec l id key chain ↔ Owns spec l id key full := by
  obtain ⟨dropped, hspells, hdropped⟩ := h
  refine ⟨chain ++ dropped, hspells, fun id snapshot => ?_, fun spec id key => ?_⟩
  all_goals rcases hdropped with rfl | ⟨v, hv, hsettled⟩ | ⟨rfl, deed, earlier, rfl, hrecord, hsettled⟩
  · rw [List.append_nil]
  · cases chain with
    | nil => cases hv
    | cons newest older => rfl
  · obtain ⟨w, older, rfl, _, hpos, _⟩ := (spells_deletion hrecord).mp hspells
    have hmarked : (w.mark (.of deed.transaction deed.statement)).isMarked = true :=
      Version.isMarked_mark hpos
    rw [List.nil_append, isWritable_cons, Version.isWritable, hmarked]
    rfl
  · rw [List.append_nil]
  · cases chain with
    | nil => cases hv
    | cons newest older =>
      cases older with
      | cons previous rest =>
        rw [List.cons_append, List.cons_append, owns_cons_cons, owns_cons_cons]
      | nil =>
        -- A newest version that is settled is not undone, so nobody looks below it.
        cases List.mem_singleton.mp hv
        have hcommitted := Ledger.isCommitted_of_committedBy hsettled
        rw [List.singleton_append, owns_singleton, Owns, hcommitted]
        simp
  · obtain ⟨w, older, rfl, _, _, _⟩ := (spells_deletion hrecord).mp hspells
    obtain ⟨hpos, hfits⟩ := ids deed List.mem_cons_self
    have hdeleted : (w.mark (.of deed.transaction deed.statement)).deleted =
        some (.of deed.transaction deed.statement) := Version.deleted_mark hpos hfits
    have hcommitted := Ledger.isCommitted_of_committedBy hsettled
    exact ⟨False.elim, fun howns => not_owns_of_committed hdeleted hcommitted howns⟩

/-! ## 2. Two chains for the same deeds -/

section Twins

variable (h : Shows l deeds chain) (h' : Shows l' deeds chain')
  (ids : ∀ deed ∈ deeds, 0 < deed.transaction ∧ deed.transaction < 2 ^ 40)
include h h'

/-- The newest versions have one record. -/
theorem Shows.record_newest {v v' : Version} {older older' : Chain} (hchain : chain = v :: older)
    (hchain' : chain' = v' :: older') : v.record = v'.record := by
  obtain ⟨dropped, hspells, _⟩ := h
  obtain ⟨dropped', hspells', _⟩ := h'
  have hcontent := hspells.map_content hspells'
  rw [hchain, hchain', List.cons_append, List.cons_append, List.map_cons, List.map_cons] at hcontent
  exact (Prod.mk.inj (List.cons.inj hcontent).1).1

include ids

theorem Shows.isWritable_eq {id snapshot : Int} (agree : ∀ deed ∈ deeds,
      l.committedBy deed.transaction snapshot = l'.committedBy deed.transaction snapshot) :
    chain.isWritable l id snapshot = chain'.isWritable l' id snapshot := by
  obtain ⟨full, hspells, hwritable, _⟩ := h.exists_full ids
  obtain ⟨full', hspells', hwritable', _⟩ := h'.exists_full ids
  have hcontent := hspells.map_content hspells'
  rw [hwritable, hwritable']
  cases full with
  | nil =>
    cases full' with
    | nil => rfl
    | cons => cases hcontent
  | cons newest older =>
    cases full' with
    | nil => cases hcontent
    | cons newest' older' =>
      obtain ⟨_, hrest⟩ := Prod.mk.inj (List.cons.inj hcontent).1
      obtain ⟨hcreated, hdeletion⟩ := Prod.mk.inj hrest
      obtain ⟨deed, hdeed, hcreator⟩ := hspells.exists_creator List.mem_cons_self
      rw [isWritable_cons, isWritable_cons, Version.isWritable, Version.isWritable,
        Version.isMarked, Version.isMarked,
        Version.deleted, Version.deleted, ← hcreated, ← hdeletion, hcreator, agree deed hdeed]

theorem Shows.owns_iff (agree : ∀ deed ∈ deeds,
      l.isCommitted deed.transaction = l'.isCommitted deed.transaction) (spec : KeySpec) (id : Int)
    (key : Bytes) : Owns spec l id key chain ↔ Owns spec l' id key chain' := by
  obtain ⟨full, hspells, _, howns⟩ := h.exists_full ids
  obtain ⟨full', hspells', _, howns'⟩ := h'.exists_full ids
  have hcontent := hspells.map_content hspells'
  rw [howns, howns']
  cases full with
  | nil =>
    cases full' with
    | nil => rfl
    | cons => cases hcontent
  | cons newest older =>
    cases full' with
    | nil => cases hcontent
    | cons newest' older' =>
      obtain ⟨hnewest, holder⟩ := List.cons.inj hcontent
      obtain ⟨hrecord, hrest⟩ := Prod.mk.inj hnewest
      obtain ⟨hcreated, hdeletion⟩ := Prod.mk.inj hrest
      obtain ⟨deed, hdeed, hcreator⟩ := hspells.exists_creator List.mem_cons_self
      have hgone : newest.deleted.any (fun stamp =>
            stamp.transaction == id || l.isCommitted stamp.transaction) =
          newest'.deleted.any fun stamp =>
            stamp.transaction == id || l'.isCommitted stamp.transaction := by
        have hdeleted : newest'.deleted = newest.deleted := by
          rw [Version.deleted, Version.deleted, hdeletion]
        rw [hdeleted]
        cases hstamp : newest.deleted with
        | none => rfl
        | some stamp =>
          obtain ⟨deed', hdeed', hmarker⟩ := hspells.deleted_newest ids hstamp
          rw [Option.any_some, Option.any_some, hmarker, agree deed' hdeed']
      cases older with
      | nil =>
        cases older' with
        | cons => cases holder
        | nil => rw [owns_singleton, owns_singleton, hgone, hrecord]
      | cons previous rest =>
        cases older' with
        | nil => cases holder
        | cons previous' rest' =>
          have hprevious : previous.record = previous'.record :=
            (Prod.mk.inj (List.cons.inj holder).1).1
          rw [owns_cons_cons, owns_cons_cons, hgone, hrecord, ← hcreated, hprevious, hcreator,
            agree deed hdeed]

end Twins

end Chain

/-! ## 3. Two stores -/

/-- Two stores that show one history, of fewer than 2^40 transactions. -/
structure Store.Twins (a : Store) (work : Work) (b : Store) (work' : Work) (c : Chronicle) : Prop where
  ok : a.Ok work
  ok' : b.Ok work'
  shows : a.Shows work c
  shows' : b.Shows work' c
  few : a.ledger.lastId < 2 ^ 40
  few' : b.ledger.lastId < 2 ^ 40

namespace Store.Twins

variable {a b : Store} {work work' : Work} {c : Chronicle} (twins : Twins a work b work' c)
  {tid : TableId} {row : RowHandle} {writer : Int} {deed : Deed}
include twins

/-- One transaction at most is writing to a row. -/
theorem exists_writer {table : Table} (here : a.tables[tid]? = some table) (row : RowHandle) :
    ∃ writer, ∀ other, other ≠ writer → c.writes other tid row = [] := by
  obtain ⟨writer, _, hfree⟩ := (twins.ok.tables here).held row
  exact ⟨writer, fun other hne =>
    (twins.shows.work.logged other tid row).eq_nil.mp (hfree other hne)⟩

/-- Whoever is behind a deed has committed for both, or for neither. -/
theorem isCommitted_eq (h : deed ∈ c.writes writer tid row ++ c.settled tid row) :
    a.ledger.isCommitted deed.transaction = b.ledger.isCommitted deed.transaction := by
  rcases List.mem_append.mp h with h | h
  · have hne := List.ne_nil_of_mem h
    obtain ⟨s, hs⟩ := twins.shows.work.running twins.ok.runs hne
    obtain ⟨s', hs'⟩ := twins.shows'.work.running twins.ok'.runs hne
    rw [Chronicle.transaction_of_mem_writes twins.shows.sound h,
      Ledger.not_isCommitted_of_active twins.ok.ledger hs,
      Ledger.not_isCommitted_of_active twins.ok'.ledger hs']
  · obtain ⟨s, hs⟩ := Chronicle.committedAt_of_mem_settled twins.shows.sound h
    rw [twins.shows.ledger.isCommitted twins.ok.ledger twins.shows.sound hs,
      twins.shows'.ledger.isCommitted twins.ok'.ledger twins.shows'.sound hs]

variable {id snapshot : Int} (active : a.ledger.active[id]? = some snapshot)
  (active' : b.ledger.active[id]? = some snapshot)
include active active'

/-- Both ledgers say the same to whoever holds a snapshot in both. -/
theorem committedBy_eq (h : deed ∈ c.writes writer tid row ++ c.settled tid row) :
    a.ledger.committedBy deed.transaction snapshot =
      b.ledger.committedBy deed.transaction snapshot := by
  rcases List.mem_append.mp h with hrunning | hsettled
  · obtain ⟨s, hs⟩ := twins.shows.work.running twins.ok.runs (List.ne_nil_of_mem hrunning)
    have hnot := Ledger.not_isCommitted_of_active twins.ok.ledger hs
    rw [← Chronicle.transaction_of_mem_writes twins.shows.sound hrunning] at hnot
    rw [Ledger.not_committedBy hnot,
      Ledger.not_committedBy ((twins.isCommitted_eq h).symm.trans hnot)]
  · obtain ⟨s, hs⟩ := Chronicle.committedAt_of_mem_settled twins.shows.sound hsettled
    rw [twins.shows.ledger.committedBy hs (Ledger.horizon_le_snapshot active),
      twins.shows'.ledger.committedBy hs (Ledger.horizon_le_snapshot active')]

omit active active'

section Rows

variable {table table' : Table} (here : a.tables[tid]? = some table)
  (here' : b.tables[tid]? = some table')
include here here'

/-- A transaction may write over a row in both or in neither. -/
theorem isWritable_eq (active : a.ledger.active[id]? = some snapshot)
    (active' : b.ledger.active[id]? = some snapshot) (row : RowHandle) :
    (table.chainOf row).isWritable a.ledger id snapshot =
      (table'.chainOf row).isWritable b.ledger id snapshot := by
  obtain ⟨writer, hothers⟩ := twins.exists_writer here row
  exact ((twins.shows.tables here).chains writer row hothers).isWritable_eq
    ((twins.shows'.tables here').chains writer row hothers)
    (fun _ h => twins.shows.known_deed twins.ok twins.few h)
    fun _ h => twins.committedBy_eq active active' h

/-- The newest versions of a row have one record. -/
theorem record_newest {row : RowHandle} {v v' : Version} {older older' : Chain}
    (hchain : table.chainOf row = v :: older) (hchain' : table'.chainOf row = v' :: older') :
    v.record = v'.record := by
  obtain ⟨writer, hothers⟩ := twins.exists_writer here row
  exact ((twins.shows.tables here).chains writer row hothers).record_newest
    ((twins.shows'.tables here').chains writer row hothers) hchain hchain'

/-- A row owns a key in both or in neither. -/
theorem owns_iff (spec : KeySpec) (id : Int) (key : Bytes) (row : RowHandle) :
    Chain.Owns spec a.ledger id key (table.chainOf row) ↔
      Chain.Owns spec b.ledger id key (table'.chainOf row) := by
  obtain ⟨writer, hothers⟩ := twins.exists_writer here row
  exact ((twins.shows.tables here).chains writer row hothers).owns_iff
    ((twins.shows'.tables here').chains writer row hothers)
    (fun _ h => twins.shows.known_deed twins.ok twins.few h)
    (fun _ h => twins.isCommitted_eq h) spec id key

/-- A running transaction reads the same record of a row in both. -/
theorem read_eq {txn txn' : Transaction} (running : work txn.id = some txn)
    (running' : work' txn'.id = some txn') {own : Bool} (hview : txn'.view own = txn.view own)
    (row : RowHandle) : (Chain.read a.ledger (txn.view own) (table.chainOf row)).record? =
      (Chain.read b.ledger (txn'.view own) (table'.chainOf row)).record? := by
  have hid : txn'.id = txn.id := (View.mk.inj hview).1
  have hsnapshot : txn'.snapshot = txn.snapshot := (View.mk.inj hview).2.1
  have active := twins.ok.runs.running running
  have active' := twins.ok'.runs.running running'
  rw [hid, hsnapshot] at active'
  obtain ⟨writer, hothers⟩ := twins.exists_writer here row
  rw [twins.shows.read_deeds twins.ok twins.few running here hothers,
    twins.shows'.read_deeds twins.ok' twins.few' running' here' hothers, hview]
  congr 1
  refine List.find?_congr fun deed hdeed => ?_
  rw [View.sees, View.sees, Ledger.isVisible, Ledger.isVisible]
  have hby : a.ledger.committedBy deed.stamp.transaction (txn.view own).snapshot =
      b.ledger.committedBy deed.stamp.transaction (txn.view own).snapshot :=
    twins.committedBy_eq active active' hdeed
  rw [hby]

end Rows

end Store.Twins
end SnapshotStore
