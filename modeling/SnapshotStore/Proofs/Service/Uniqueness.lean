import Mathlib
import SnapshotStore.Proofs.History.Concealed
import SnapshotStore.Proofs.History.Prospects
import SnapshotStore.Proofs.Service.Refused
import SnapshotStore.Proofs.Table.Search

/-!
# Unique keys are unique

A unique index that was built on a table without rows keeps its keys apart, in every run in which nobody
gives a row a second record on top of a committed one (`Onward.oneRowPerKey`): however the transactions
that run end, no two rows come to have one key, and so a transaction that begins sees one row of a key at
most (`Onward.visible_unique`).

The condition cannot be left out. Whether a key is taken is asked of the newest version of a row and of
the one below it, and a transaction that updates a row twice has covered the committed version with two:
its key is free to others, and the transaction may be undone.
-/

namespace SnapshotStore

open Chain

/-! ## 1. Updating once -/

/-- The row that a transaction has given a record, if that is what has happened. -/
def Event.given? : Event → Option (Int × TableId × RowHandle)
  | .wrote id table row (some _) => some (id, table, row)
  | _ => none

namespace Chronicle

/-- The records that a transaction has put on a row have been put there. -/
theorem countP_writes_le (history : List Event) (id : Int) (tid : TableId) (row : RowHandle) :
    ((of history).writes id tid row).countP (·.record?.isSome) ≤
      (history.filterMap Event.given?).count (id, tid, row) := by
  -- A write adds to both sides; an end or a rollback takes away on the left only.
  induction history using List.reverseRecOn with
  | nil => exact Nat.le_refl _
  | append_singleton history event ih =>
    rw [of_append, List.foldl_cons, List.foldl_nil, List.filterMap_append, List.count_append]
    cases event with
    | wrote writer other r record? =>
      rw [writes_wrote]
      split
      · rename_i hhere
        obtain ⟨rfl, rfl, rfl⟩ := hhere
        cases record? with
        | none => simpa using Nat.le_add_right_of_le ih
        | some record => simpa [Event.given?] using ih
      · exact Nat.le_add_right_of_le ih
    | committed writer =>
      rw [writes_committed]
      split
      · exact Nat.zero_le _
      · exact Nat.le_add_right_of_le ih
    | undone writer whole =>
      rw [writes_undone]
      split
      · split
        · exact Nat.zero_le _
        · rename_i heq _
          rw [← heq]
          exact Nat.le_add_right_of_le ((List.filter_sublist.countP_le).trans ih)
      · exact Nat.le_add_right_of_le ih
    | began | statement | aborted | quiet => exact Nat.le_add_right_of_le ih

/-- Nobody updates a row twice who never gives the same row two records. -/
theorem updatesOnce_of_nodup {past history : List Event} (hpast : past <+: history)
    (nodup : (history.filterMap Event.given?).Nodup) (tid : TableId) :
    (of past).UpdatesOnce tid := by
  intro id row
  have hsublist := (hpast.filterMap Event.given?).sublist
  have hcount := (countP_writes_le past id tid row).trans
    (List.nodup_iff_count_le_one.mp (nodup.sublist hsublist) _)
  split <;> omega

end Chronicle

/-! ## 2. What a write may take -/

namespace Store

variable {store store' : Store} {work work' : Work} {c : Chronicle} {tid : TableId} {table : Table}
  {i : Nat} {index : Index}

section Writing

variable {id : Int} {txn : Transaction} {after : Table} {row : RowHandle} {record : Record}
  {old? : Option Record} {writes : List Write} {back : Int → Nat}

/-- What a writer replaces is what has come of the row, as long as the writer stays in its statement. -/
theorem Shows.decides_newest (shows : store.Shows work c) (ok : store.Ok work)
    (running : work id = some txn) (here : store.tables[tid]? = some table)
    (hothers : ∀ other, other ≠ id → c.writes other tid row = []) {newest : Version} {older : Chain}
    (hchain : table.chainOf row = newest :: older) (hunmarked : newest.isMarked = false)
    (stays : c.statement id < back id) :
    ∃ deed, c.Decides back tid row deed ∧ deed.record? = some newest.record := by
  have hshows := (shows.tables here).chains id row hothers
  rw [hchain] at hshows
  obtain ⟨deed, earlier, hdeeds, hmarked⟩ := hshows.newest
  rw [hunmarked, eq_comm, Option.isNone_eq_false_iff] at hmarked
  obtain ⟨record, hrecord⟩ := Option.isSome_iff_exists.mp hmarked
  rw [hdeeds] at hshows
  obtain ⟨hnewest, _⟩ := hshows.newest_record hrecord
  refine ⟨deed, (Chronicle.decides_iff hothers).mpr ⟨earlier, ?_⟩, hrecord.trans (by rw [hnewest])⟩
  rw [Chronicle.kept_eq, hdeeds]
  intro deed hdeed
  have hle := shows.work.statement_le ok.runs running hdeed
  rw [← shows.work.statement running] at hle
  exact Nat.lt_of_le_of_lt hle stays

/-- A key that a write has been granted can come of no other row, as long as the writer stays in its
statement. -/
theorem Shows.granted (shows : store.Shows work c) (ok : store.Ok work)
    (few : store.ledger.lastId < 2 ^ 40) (running : work id = some txn)
    (here : store.tables[tid]? = some table)
    (wrote : Table.Wrote store.ledger txn table row record old? after writes)
    (writable : ∀ newest older, table.chainOf row = newest :: older →
      newest.isWritable store.ledger txn.id txn.snapshot = true)
    (hindex : table.indexes[i]? = some index) (unique : index.spec.unique = true)
    (once : c.UpdatesOnce tid) (one : c.OneRowPerKey tid index.spec) {r : RowHandle} {deed : Deed}
    {key : Bytes} (stays : c.statement id < back id) (hkey : index.spec.keyOf record = .ok key)
    (decides : c.Decides back tid r deed) (gives : deed.Gives index.spec key) : r = row := by
  have hid := ok.runs.id running
  obtain ⟨own, _, _, hown, _, _, hfree, _⟩ := wrote.indexes hindex
  obtain rfl : own = key := Except.ok.inj (hown.1.symm.trans hkey)
  rcases hfree unique with ⟨old, hold, hkeyed⟩ | hfree
  · -- The row has had the key before.
    rw [wrote.old] at hold
    obtain ⟨newest, hnewest, rfl⟩ := Option.map_eq_some_iff.mp hold
    obtain ⟨older, hchain⟩ := List.head?_eq_some_iff.mp hnewest
    have hunmarked := (Table.isWritable_iff.mp (writable newest older hchain)).1
    have hothers := Table.writes_eq_nil (ok.tables here) ok.ledger ok.runs shows.work writable
    rw [hid] at hothers
    obtain ⟨last, hlast, hrecord⟩ :=
      shows.decides_newest ok running here hothers hchain hunmarked stays
    exact one.apart decides hlast gives ⟨newest.record, hrecord, hkeyed.1⟩
  · -- Nobody else owns it.
    by_contra hne
    refine hfree r hne (shows.owns_of_decides ok few here once ?_ decides gives)
    intro deed hdeed
    rw [hid] at hdeed ⊢
    have hle := shows.work.statement_le ok.runs running hdeed
    rw [← shows.work.statement running] at hle
    exact Nat.lt_of_le_of_lt hle stays

end Writing

/-! ## 3. Move by move -/

/-- A move keeps the keys of a unique index apart. -/
theorem Move.oneRowPerKey {event : Event} (move : Move store work event store' work')
    (ok : store.Ok work) (few : store.ledger.lastId < 2 ^ 40) (shows : store.Shows work c)
    (here : store.tables[tid]? = some table) (hindex : table.indexes[i]? = some index)
    (unique : index.spec.unique = true) (once : c.UpdatesOnce tid)
    (one : c.OneRowPerKey tid index.spec) : (c.tell event).OneRowPerKey tid index.spec := by
  cases move with
  | began | statement | aborted => exact one.of_same (fun _ _ => rfl) fun _ => rfl
  | refreshed | doomed | refused | built | reclaimed | admitted | added => exact one
  | @wrote id txn other t after row record old? writes running sound there wrote writable =>
    by_cases hother : other = tid
    · subst hother
      obtain rfl : t = table := Option.some.inj (there.symm.trans here)
      exact one.wrote fun stays hkey decides gives =>
        shows.granted ok few running here wrote writable hindex unique once one stays hkey decides
          gives
    · exact one.elsewhere hother _ _ _
  | marked => exact one.deleted _ _ _
  | @committed id txn running sound =>
    have hearlier : ∀ row, ∀ deed ∈ c.writes id tid row, deed.statement < txn.statement + 1 :=
      fun row deed hdeed => Nat.lt_succ_of_le (shows.work.statement_le ok.runs running hdeed)
    exact one.committed hearlier
  | @undone id txn running whole =>
    refine one.undone (fun row deed hdeed => ?_) whole
    rw [shows.work.statement running]
    exact shows.work.statement_le ok.runs running hdeed

/-- Moves keep the keys of a unique index apart. -/
theorem Moves.oneRowPerKey {events : List Event} (moves : Moves store work events store' work')
    (ok : store.Ok work) (few : store'.ledger.lastId < 2 ^ 40) (shows : store.Shows work c)
    (here : store.tables[tid]? = some table) (hindex : table.indexes[i]? = some index)
    (unique : index.spec.unique = true)
    (once : ∀ past, past <+: events → (past.foldl Chronicle.tell c).UpdatesOnce tid)
    (one : c.OneRowPerKey tid index.spec) :
    (events.foldl Chronicle.tell c).OneRowPerKey tid index.spec := by
  induction moves generalizing c table index with
  | refl => exact one
  | @step store store' store'' work work' work'' event events move rest ih =>
    have hok := move.ok ok
    have fewNext := Int.lt_of_le_of_lt (rest.grows hok).lastId_le few
    have fewNow := Int.lt_of_le_of_lt (move.grows ok).lastId_le fewNext
    obtain ⟨table', here', hextends⟩ := (move.extends ok).keeps here
    obtain ⟨index', hindex', hspec, _⟩ := hextends.indexes hindex
    have hnow := move.oneRowPerKey ok fewNow shows here hindex unique (once [] List.nil_prefix) one
    rw [List.foldl_cons, ← hspec]
    refine ih hok few (move.shows ok fewNext shows) here' hindex' (hspec ▸ unique)
      (fun past hpast => ?_) (hspec ▸ hnow)
    exact once (event :: past) (List.cons_prefix_cons.mpr ⟨rfl, hpast⟩)

/-- Nothing can come of the rows of a table that has none. -/
theorem Shows.oneRowPerKey_of_empty (shows : store.Shows work c) (ok : store.Ok work)
    (few : store.ledger.lastId < 2 ^ 40) (here : store.tables[tid]? = some table)
    (empty : table.rows = ∅) (once : c.UpdatesOnce tid) (spec : KeySpec) :
    c.OneRowPerKey tid spec := by
  refine ⟨fun {back row row' deed deed' key} decides _ gives _ => ?_⟩
  have hidle := shows.work.idle ok.idle_next
  have howns := shows.owns_of_decides ok few here once
    (fun deed hdeed => by rw [Chronicle.writes, hidle] at hdeed; cases hdeed) decides gives
  have habsent : table.rows[row]? = none := by
    rw [empty]
    exact Std.ExtTreeMap.getElem?_empty
  rw [Table.chainOf_of_absent habsent] at howns
  exact howns.elim

/-- A transaction reads of a row what was committed of it last, if it has not written to the row and
nothing was committed after its snapshot. -/
theorem Shows.read_latest (shows : store.Shows work c) (ok : store.Ok work)
    (few : store.ledger.lastId < 2 ^ 40) {txn : Transaction} (running : work txn.id = some txn)
    (here : store.tables[tid]? = some table) {row : RowHandle}
    (untouched : c.writes txn.id tid row = [])
    (latest : ∀ {id s : Int}, c.CommittedAt id s → s ≤ txn.snapshot) (own : Bool) :
    (Chain.read store.ledger (txn.view own) (table.chainOf row)).record? =
      (c.settled tid row).head?.bind (·.record?) := by
  obtain ⟨writer, _, hfree⟩ := (ok.tables here).held row
  have hothers : ∀ other, other ≠ writer → c.writes other tid row = [] :=
    fun other hne => (shows.work.logged other tid row).eq_nil.mp (hfree other hne)
  have hpending : (c.writes writer tid row).find? ((txn.view own).sees store.ledger ·.stamp) =
      none := by
    rw [List.find?_eq_none]
    intro deed hdeed
    by_cases hwriter : writer = txn.id
    · rw [hwriter, untouched] at hdeed
      cases hdeed
    · rw [shows.not_sees ok hwriter hdeed]
      exact Bool.false_ne_true
  rw [shows.read_deeds ok few running here hothers own, List.find?_append, hpending, Option.none_or]
  cases hsettled : c.settled tid row with
  | nil => rfl
  | cons deed earlier =>
    have hin : deed ∈ c.settled tid row := by
      rw [hsettled]
      exact List.mem_cons_self
    obtain ⟨s, hs⟩ := Chronicle.committedAt_of_mem_settled shows.sound hin
    rw [List.find?_cons, Transaction.sees_committed shows.ledger (ok.runs.running running) hs,
      decide_eq_true (latest hs)]
    rfl

/-- A transaction that begins reads of each row what was committed of it last. -/
theorem Shows.read_begun (shows : store.Shows work c) (ok : store.Ok work) {l : Ledger}
    {id snapshot : Int} (begins : store.ledger.begin? = some (l, id, snapshot))
    (few : l.lastId < 2 ^ 40) (here : store.tables[tid]? = some table) (row : RowHandle)
    (own : Bool) :
    (Chain.read l ⟨id, snapshot, 1, own⟩ (table.chainOf row)).record? =
      (c.settled tid row).head?.bind (·.record?) := by
  have hmove : Move store work (.began id) (store.withLedger l)
    (Function.update work id (some { id, snapshot })) := .began begins
  have hok := hmove.ok ok
  have hshows := hmove.shows ok few shows
  let txn : Transaction := { id, snapshot }
  have running : Function.update work id (some txn) txn.id = some txn := Function.update_self _ _ _
  have hidle : (c.tell (.began id)).writes txn.id tid row = [] := by
    rw [← (hshows.work.logged txn.id tid row).eq_nil, Work.log_eq running]
    rfl
  refine hshows.read_latest hok few running here hidle (fun {other s} hs => ?_) own
  obtain ⟨commit, hcommit, _, rfl⟩ := hs
  obtain ⟨_, _, hdrawn, _⟩ := Ledger.begin?_eq_some.mp begins
  have hle := shows.sound.drawn hcommit
  rw [shows.ledger.sequence] at hdrawn
  show commit.sequence ≤ snapshot
  omega

end Store

/-! ## 4. Run by run -/

namespace Service

variable {history history' : List Event} {service service' : Service} {tid : TableId}
  {table table' : Table} {i : Nat} {index : Index}

/-- Answering a request keeps the keys of a unique index apart. -/
theorem Reached.handle_oneRowPerKey (reached : Reached history service) (request : Request)
    (few : (service.handle request).1.store.ledger.lastId < 2 ^ 40)
    (here : service.store.tables[tid]? = some table) (hindex : table.indexes[i]? = some index)
    (unique : index.spec.unique = true)
    (once : ∀ past, history <+: past → past <+: history ++ service.happening request →
      (Chronicle.of past).UpdatesOnce tid)
    (one : (Chronicle.of history).OneRowPerKey tid index.spec) :
    (Chronicle.of (history ++ service.happening request)).OneRowPerKey tid index.spec := by
  obtain ⟨_, ok₀⟩ := reached.ok
  obtain ⟨_, _, answered₀⟩ := handle_moves ok₀ request
  obtain ⟨work, ok, shows⟩ :=
    reached.shows (Int.lt_of_le_of_lt (answered₀.moves.grows ok₀.store).lastId_le few)
  obtain ⟨events, work', answered⟩ := handle_moves ok request
  rw [Chronicle.of_append, happening, ← answered.told.loud, Chronicle.foldl_tell_loud]
  refine answered.moves.oneRowPerKey ok.store few shows here hindex unique (fun past hpast => ?_) one
  have hprefix : past.filter (!·.isQuiet) <+: service.happening request := by
    rw [happening, ← answered.told.loud]
    exact hpast.filter _
  have honce := once (history ++ past.filter (!·.isQuiet)) (List.prefix_append _ _)
    (List.prefix_append_right_inj _ |>.mpr hprefix)
  rwa [Chronicle.of_append, Chronicle.foldl_tell_loud] at honce

/-- History goes on. -/
theorem Onward.history_prefix (onward : Onward history service history' service') :
    history <+: history' := by
  induction onward with
  | refl => exact List.prefix_rfl
  | added _ _ _ _ ih => exact ih
  | asked _ _ ih => exact ih.trans (List.prefix_append _ _)

/-- The indexes of a table stay what they are of. -/
theorem Onward.exists_index (onward : Onward history service history' service')
    (reached : Reached history service) (here : service.store.tables[tid]? = some table)
    (hindex : table.indexes[i]? = some index) : ∃ table' index',
      service'.store.tables[tid]? = some table' ∧ table'.indexes[i]? = some index' ∧
        index'.spec = index.spec := by
  have hextends : ∀ {store store' : Store}, store.Extends store' →
      (∃ t ix, store.tables[tid]? = some t ∧ t.indexes[i]? = some ix ∧ ix.spec = index.spec) →
      ∃ t ix, store'.tables[tid]? = some t ∧ t.indexes[i]? = some ix ∧ ix.spec = index.spec := by
    rintro store store' hextends ⟨t, ix, ht, hix, hspec⟩
    obtain ⟨t', ht', htable⟩ := hextends.keeps ht
    obtain ⟨ix', hix', hsame, _⟩ := htable.indexes hix
    exact ⟨t', ix', ht', hix', hsame.trans hspec⟩
  induction onward with
  | refl => exact ⟨table, index, here, hindex, rfl⟩
  | added before name schema config ih =>
    obtain ⟨_, ok⟩ := (before.reached reached).ok
    exact hextends ((Store.Move.added name schema config).extends ok.store) ih
  | asked before request ih =>
    obtain ⟨_, ok⟩ := (before.reached reached).ok
    obtain ⟨_, _, answered⟩ := handle_moves ok request
    exact hextends (answered.moves.extends ok.store) ih

/-- From a table without rows on, a unique index keeps its keys apart while nobody gives a row a second
record on top of a committed one. -/
theorem Onward.oneRowPerKey (onward : Onward history service history' service')
    (reached : Reached history service) (few : service'.store.ledger.lastId < 2 ^ 40)
    (here : service.store.tables[tid]? = some table) (empty : table.rows = ∅)
    (hindex : table.indexes[i]? = some index) (unique : index.spec.unique = true)
    (once : ∀ past, history <+: past → past <+: history' → (Chronicle.of past).UpdatesOnce tid) :
    (Chronicle.of history').OneRowPerKey tid index.spec := by
  induction onward with
  | refl =>
    obtain ⟨work, ok, shows⟩ := reached.shows few
    exact shows.oneRowPerKey_of_empty ok.store few here empty
      (once history List.prefix_rfl List.prefix_rfl) index.spec
  | added _ name schema config ih => exact ih few once
  | @asked middle service' before request ih =>
    have hreached := before.reached reached
    obtain ⟨_, ok⟩ := hreached.ok
    obtain ⟨_, _, answered⟩ := handle_moves ok request
    have fewNow := Int.lt_of_le_of_lt (answered.moves.grows ok.store).lastId_le few
    have hone := ih fewNow fun past hfrom hto =>
      once past hfrom (hto.trans (List.prefix_append _ _))
    obtain ⟨table', index', here', hindex', hspec⟩ := before.exists_index reached here hindex
    rw [← hspec] at hone ⊢
    refine hreached.handle_oneRowPerKey request few here' hindex' (hspec ▸ unique) ?_ hone
    exact fun past hfrom hto => once past (before.history_prefix.trans hfrom) hto

/-- From a table without rows on, a transaction that begins sees one row of each key of a unique index at
most, while nobody gives a row a second record on top of a committed one. -/
theorem Onward.visible_unique (onward : Onward history service history' service')
    (reached : Reached history service) (here : service.store.tables[tid]? = some table)
    (empty : table.rows = ∅) (hindex : table.indexes[i]? = some index)
    (unique : index.spec.unique = true)
    (once : ∀ past, history <+: past → past <+: history' → (Chronicle.of past).UpdatesOnce tid)
    (here' : service'.store.tables[tid]? = some table') {l : Ledger} {id snapshot : Int}
    (begins : service'.store.ledger.begin? = some (l, id, snapshot)) (few : l.lastId < 2 ^ 40)
    {own : Bool} {key : Bytes} {ref ref' : Table.RowRef}
    (sees : table'.Visible l ⟨id, snapshot, 1, own⟩ index.spec key ref)
    (sees' : table'.Visible l ⟨id, snapshot, 1, own⟩ index.spec key ref') : ref = ref' := by
  have fewNow : service'.store.ledger.lastId < 2 ^ 40 := by
    obtain ⟨_, hid, _, rfl⟩ := Ledger.begin?_eq_some.mp begins
    rw [hid] at few
    exact Int.lt_trans (Int.lt_succ _) few
  have hone := onward.oneRowPerKey reached fewNow here empty hindex unique once
  obtain ⟨work, ok, shows⟩ := (onward.reached reached).shows fewNow
  -- What it sees is what has been committed last, and that would be left if all others went back.
  have hdecides : ∀ {ref : Table.RowRef}, table'.Visible l ⟨id, snapshot, 1, own⟩ index.spec key ref →
      ∃ deed, (Chronicle.of history').Decides (fun _ => 0) tid ref.handle deed ∧
        deed.Gives index.spec key := by
    intro ref sees
    have hread := shows.read_begun ok.store begins few here' ref.handle own
    rw [sees.read] at hread
    obtain ⟨deed, hdeed, hrecord⟩ := Option.bind_eq_some_iff.mp hread.symm
    obtain ⟨earlier, hsettled⟩ := List.head?_eq_some_iff.mp hdeed
    refine ⟨deed, .settled (fun _ => ?_) hsettled, ref.version.record, hrecord, sees.keyed⟩
    exact List.filter_eq_nil_iff.mpr fun deed _ => by simp
  obtain ⟨deed, decides, gives⟩ := hdecides sees
  obtain ⟨deed', decides', gives'⟩ := hdecides sees'
  exact (sees.unique sees' (hone.apart decides decides' gives gives')).2

/-! ## 5. Two runs -/

/-- A table with a unique index and without rows. -/
def keyed : Service := (small.run [.buildIndex 0 uniqueIndex]).1

/-- What the index of that table is of: its keys are single bytes. -/
def boundIndex : KeySpec := { uniqueIndex with width := 1 }

/-- The first session has committed a row and the second gives it another byte. The first asks for the
byte that may yet come back, and the second takes its update back. -/
def contending : List Request :=
  [.insert 1 0 (byteRecord 1), .commit 1 .session, .begin 2 2, .update 2 0 firstRow (byteRecord 2),
    .insert 1 0 (byteRecord 1), .rollback 2 .session, .commit 1 .session]

/-- It is refused, and whoever begins then sees the byte on one row. -/
theorem contending_visible_unique : (keyed.run contending).2[4]? = some (.wrote (.keyExists 0)) ∧
    ∃ (table : Table) (l : Ledger) (id snapshot : Int),
      (keyed.run contending).1.store.tables[0]? = some table ∧
      (keyed.run contending).1.store.ledger.begin? = some (l, id, snapshot) ∧
      ∀ {own : Bool} {key : Bytes} {ref ref' : Table.RowRef},
        table.Visible l ⟨id, snapshot, 1, own⟩ boundIndex key ref →
          table.Visible l ⟨id, snapshot, 1, own⟩ boundIndex key ref' → ref = ref' := by
  have reached := reached_small.run [.buildIndex 0 uniqueIndex]
  have hkeyed : (keyed.store.tables[0]?.filter fun table : Table =>
      table.rows.isEmpty ∧ (table.indexes[0]?.map (·.spec)) = some boundIndex).isSome = true := by
    decide +kernel
  obtain ⟨table, hkeyed⟩ := Option.isSome_iff_exists.mp hkeyed
  obtain ⟨here, htable⟩ := Option.filter_eq_some_iff.mp hkeyed
  obtain ⟨hempty, hindexes⟩ := of_decide_eq_true htable
  obtain ⟨index, hindex, hspec⟩ := Option.map_eq_some_iff.mp hindexes
  have hhere : (keyed.run contending).1.store.tables[0]?.isSome = true := by decide +kernel
  obtain ⟨table', here'⟩ := Option.isSome_iff_exists.mp hhere
  have hbegins : ((keyed.run contending).1.store.ledger.begin?.filter fun begun =>
      begun.1.lastId < 2 ^ 40).isSome = true := by
    decide +kernel
  obtain ⟨⟨l, id, snapshot⟩, hbegins⟩ := Option.isSome_iff_exists.mp hbegins
  obtain ⟨begins, hfew⟩ := Option.filter_eq_some_iff.mp hbegins
  have hnodup : ((small.happenings [.buildIndex 0 uniqueIndex] ++
      keyed.happenings contending).filterMap Event.given?).Nodup := by
    decide +kernel
  refine ⟨by decide +kernel, table', l, id, snapshot, here', begins, fun sees sees' => ?_⟩
  rw [← hspec] at sees sees'
  exact (Onward.refl.run contending).visible_unique reached here
    (Std.ExtTreeMap.isEmpty_iff.mp hempty) hindex (by rw [hspec]; rfl)
    (fun past _ hpast => Chronicle.updatesOnce_of_nodup hpast hnodup 0) here' begins
    (of_decide_eq_true hfew) sees sees'

/-- The same, but that the second session updates the row once more. -/
def covering : List Request :=
  [.insert 1 0 (byteRecord 1), .commit 1 .session, .begin 2 2, .update 2 0 firstRow (byteRecord 2),
    .update 2 0 firstRow (byteRecord 3), .insert 1 0 (byteRecord 1), .rollback 2 .session,
    .commit 1 .session]

/-- Now the first is granted the byte, and whoever begins then sees it on two rows. -/
theorem covering_visible_twice : ∃ (table : Table) (l : Ledger) (id snapshot : Int)
    (ref ref' : Table.RowRef), (keyed.run covering).1.store.tables[0]? = some table ∧
      (keyed.run covering).1.store.ledger.begin? = some (l, id, snapshot) ∧
      table.Visible l ⟨id, snapshot, 1, true⟩ boundIndex [1] ref ∧
      table.Visible l ⟨id, snapshot, 1, true⟩ boundIndex [1] ref' ∧ ref ≠ ref' := by
  have hfound : (((keyed.run covering).1.store.tables[0]?.bind fun table =>
      (keyed.run covering).1.store.ledger.begin?.map (table, ·)).filter fun found =>
        [firstRow, secondRow].all fun row =>
          (Chain.read found.2.1 ⟨found.2.2.1, found.2.2.2, 1, true⟩
            (found.1.chainOf row)).record?.any (boundIndex.keyOf · = .ok [1])).isSome = true := by
    decide +kernel
  obtain ⟨⟨table, l, id, snapshot⟩, hfound⟩ := Option.isSome_iff_exists.mp hfound
  obtain ⟨hfound, hrows⟩ := Option.filter_eq_some_iff.mp hfound
  obtain ⟨_, here, hbegins⟩ := Option.bind_eq_some_iff.mp hfound
  obtain ⟨_, begins, heq⟩ := Option.map_eq_some_iff.mp hbegins
  cases heq
  have hsees : ∀ row ∈ [firstRow, secondRow], ∃ version older,
      table.Visible l ⟨id, snapshot, 1, true⟩ boundIndex [1] ⟨row, version, older⟩ := by
    intro row hrow
    have hread := List.all_eq_true.mp hrows row hrow
    cases hreading : Chain.read l ⟨id, snapshot, 1, true⟩ (table.chainOf row) with
    | visible version older =>
      simp only [hreading, Reading.record?, Option.any_some, decide_eq_true_eq] at hread
      exact ⟨version, older, hreading, hread⟩
    | deleted | invisible => simp [hreading, Reading.record?] at hread
  obtain ⟨version, older, hfirst⟩ := hsees firstRow (by simp)
  obtain ⟨version', older', hsecond⟩ := hsees secondRow (by simp)
  have hrows : firstRow ≠ secondRow := by decide
  exact ⟨table, l, id, snapshot, _, _, here, begins, hfirst, hsecond,
    fun hsame => hrows (congrArg Table.RowRef.handle hsame)⟩

end Service
end SnapshotStore
