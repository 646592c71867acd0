import Mathlib
import SnapshotStore.Proofs.Service.Reached
import SnapshotStore.Proofs.Upkeep.Store

/-!
# Indexes that are kept up

An index of a table holds nothing but entries of rows that are there (`Tended.entries_linked`), and when a
table without history is reclaimed while nobody is running there is one entry left in each index for each
row that was committed (`Tended.spotless`), so that indexes of the same keys end up the same, whenever they
were built (`Tended.same_entries`).

This holds of services whose table is tended at the right time (`Request.Timely`). Any other request may
come at any time, and so may a reclamation while nobody is running, or whenever no version that may yet be
taken back carries an entry that is due to go. An index may be built while the table has no rows, and right
after a reclamation that left it without history. The condition cannot be left out: an entry that
reclamation leaves for the sake of a running transaction is forgotten, and should the transaction be undone
it stays for good.
-/

namespace SnapshotStore

/-- A request that leaves the table alone, or finds it as it has to be. -/
inductive Request.Timely (store : Store) (c : Chronicle) (tid : TableId) : Request → Prop
  | elsewhere {request : Request} (apart : tid ∉ request.tended) : Timely store c tid request
  | build {spec : KeySpec} {visit : Table.Visit} (allLast : store.AllLast c tid spec) :
    Timely store c tid (.buildIndex tid spec visit)
  | reclaim {tables : List TableId} (unhindered : store.Unhindered tid) :
    Timely store c tid (.reclaim tables)

namespace Service

/-- The services there can be whose table of that number is tended at the right time, and their
histories. -/
inductive Tended (tid : TableId) : List Event → Service → Prop
  | start : Tended tid [] {}
  | added {history : List Event} {service : Service} (before : Tended tid history service)
    (name : String) (schema : Schema) (config : Config) :
    Tended tid history (service.withTable name schema config)
  | asked {history : List Event} {service : Service} (before : Tended tid history service)
    {request : Request} (timely : request.Timely service.store (.of history) tid) :
    Tended tid (history ++ service.happening request) (service.handle request).1

/-- The books of the table are in order. -/
structure Audited (service : Service) (history : List Event) (tid : TableId) (work : Work) : Prop where
  ok : service.Ok work
  shows : service.store.Shows work (.of history)
  accounts : service.store.Accounts work (.of history) tid

variable {service : Service} {work : Work} {history : List Event} {tid : TableId}
  {request : Request}

theorem Tended.reached (tended : Tended tid history service) : Reached history service := by
  induction tended with
  | start => exact .start
  | added _ name schema config ih => exact ih.added name schema config
  | asked _ _ ih => exact ih.asked _

/-! ## 1. Request by request -/

theorem audited_start (tid : TableId) : Audited {} [] tid fun _ => none where
  ok := ok_start
  shows := Store.shows_start
  accounts := ⟨fun h => by simp at h⟩

theorem Audited.withTable (audited : service.Audited history tid work)
    (few : service.store.ledger.lastId < 2 ^ 40) (name : String) (schema : Schema)
    (config : Config) : (service.withTable name schema config).Audited history tid work := by
  have hmove : Store.Move service.store work .quiet (service.withTable name schema config).store work :=
    .added name schema config
  have huntended : Event.quiet ≠ .quiet (some tid) := by simp
  exact ⟨audited.ok.withTable name schema config, hmove.shows audited.ok.store few audited.shows,
    hmove.accounts audited.ok.store few audited.shows audited.accounts huntended⟩

@[simp]
theorem happening_buildIndex (service : Service) (tid : TableId) (spec : KeySpec)
    (visit : Table.Visit) : service.happening (.buildIndex tid spec visit) = [] := rfl

@[simp]
theorem happening_reclaim (service : Service) (tables : List TableId) :
    service.happening (.reclaim tables) = [] := rfl

/-- A request that comes at the right time keeps the books in order. -/
theorem Audited.handle (audited : service.Audited history tid work)
    (timely : request.Timely service.store (.of history) tid)
    (few : (service.handle request).1.store.ledger.lastId < 2 ^ 40) :
    ∃ work', (service.handle request).1.Audited (history ++ service.happening request) tid work' := by
  obtain ⟨events, work', answered⟩ := handle_moves audited.ok request
  have fewNow := Int.lt_of_le_of_lt (answered.moves.grows audited.ok.store).lastId_le few
  cases timely with
  | elsewhere apart =>
    have huntended : .quiet (some tid) ∉ events := fun hin => apart (answered.told.tended hin)
    have haccounts := answered.moves.accounts audited.ok.store few audited.shows audited.accounts huntended
    refine ⟨work', answered.ok, answered.shows audited.ok few audited.shows, ?_⟩
    rw [Chronicle.of_append, happening, ← answered.told.loud, Chronicle.foldl_tell_loud]
    exact haccounts
  | @build spec visit allLast =>
    -- The transactions go on as they are, and so they do when tables are reclaimed.
    obtain ⟨events, moves, hquiet⟩ := buildIndex_moves service.store work tid spec visit
    have hshows := moves.shows audited.ok.store few audited.shows
    rw [← Chronicle.foldl_tell_loud, List.filter_eq_nil_iff.mpr] at hshows
    · rw [happening_buildIndex, List.append_nil]
      exact ⟨work, ⟨moves.ok audited.ok.store, audited.ok.linked⟩, hshows,
        audited.accounts.buildIndex audited.shows audited.ok.store allLast⟩
    · intro event hevent
      rw [hquiet event hevent]
      exact Bool.false_ne_true
  | @reclaim tables unhindered =>
    have hunhindered : tid ∈ tables → service.store.Unhindered tid := fun _ => unhindered
    obtain ⟨haccounts, hshows⟩ :=
      audited.accounts.reclaimTables audited.shows audited.ok.store fewNow hunhindered
    rw [happening_reclaim, List.append_nil]
    exact ⟨work, ⟨audited.ok.store.reclaimTables tables, audited.ok.linked⟩, hshows, haccounts⟩

/-- A service whose table is tended at the right time has its books in order. -/
theorem Tended.audited (tended : Tended tid history service)
    (few : service.store.ledger.lastId < 2 ^ 40) : ∃ work, service.Audited history tid work := by
  induction tended with
  | start => exact ⟨_, audited_start tid⟩
  | added _ name schema config ih =>
    obtain ⟨work, audited⟩ := ih few
    exact ⟨work, audited.withTable few name schema config⟩
  | @asked history service before request timely ih =>
    obtain ⟨_, ok⟩ := before.reached.ok
    obtain ⟨_, _, answered⟩ := handle_moves ok request
    obtain ⟨work, audited⟩ := ih (Int.lt_of_le_of_lt (answered.moves.grows ok.store).lastId_le few)
    exact audited.handle timely few

/-! ## 2. The right time -/

section Times

variable (tended : Tended tid history service) {table : Table}
  (here : service.store.tables[tid]? = some table)
include tended

/-- What leaves the table alone may be asked for at any time. -/
theorem Tended.run {requests : List Request} (apart : ∀ request ∈ requests, tid ∉ request.tended) :
    Tended tid (history ++ service.happenings requests) (service.run requests).1 := by
  induction requests generalizing history service with
  | nil =>
    rw [happenings, List.append_nil]
    exact tended
  | cons request requests ih =>
    rw [happenings, ← List.append_assoc]
    refine ih (tended.asked (.elsewhere (apart request List.mem_cons_self))) fun later hlater => ?_
    exact apart later (List.mem_cons_of_mem _ hlater)

/-- A table may be reclaimed while nobody is running. -/
theorem Tended.reclaim_of_idle (idle : service.store.ledger.Idle) (tables : List TableId) :
    Tended tid history (service.handle (.reclaim tables)).1 := by
  obtain ⟨_, ok⟩ := tended.reached.ok
  have timely : (Request.reclaim tables).Timely service.store (.of history) tid :=
    .reclaim (ok.store.unhindered idle tid)
  have hasked := tended.asked timely
  rwa [happening_reclaim, List.append_nil] at hasked

include here in
/-- An index may be built while every version has the last keys of its row. -/
theorem Tended.build (spec : KeySpec) {visit : Table.Visit}
    (allLast : ∀ bound, table.AllLast (.of history) tid bound) :
    Tended tid history (service.handle (.buildIndex tid spec visit)).1 := by
  have hallLast : service.store.AllLast (.of history) tid spec := by
    refine ⟨fun {found bound} hfound _ => ?_⟩
    cases here.symm.trans hfound
    exact allLast bound
  have timely : (Request.buildIndex tid spec visit).Timely service.store (.of history) tid :=
    .build hallLast
  have hasked := tended.asked timely
  rwa [happening_buildIndex, List.append_nil] at hasked

include here in
/-- An index may be built while the table has no rows. -/
theorem Tended.build_of_empty (spec : KeySpec) {visit : Table.Visit} (empty : table.rows = ∅) :
    Tended tid history (service.handle (.buildIndex tid spec visit)).1 :=
  tended.build here spec fun bound => Table.allLast_of_empty _ tid bound empty

include here in
/-- An index may be built when the table has just been reclaimed and keeps no history. -/
theorem Tended.build_of_spotless (spec : KeySpec) {visit : Table.Visit}
    (spotless : table.Spotless (.of history) tid) :
    Tended tid history (service.handle (.buildIndex tid spec visit)).1 :=
  tended.build here spec fun bound => spotless.allLast bound

end Times

/-! ## 3. What the indexes hold -/

section Holding

variable (tended : Tended tid history service) (few : service.store.ledger.lastId < 2 ^ 40)
  {table : Table} (here : service.store.tables[tid]? = some table)
include tended few here

/-- An entry is that of a key and of a row that is there. -/
theorem Tended.entries_linked {i : Nat} {index : Index} (hindex : table.indexes[i]? = some index)
    {entry : Bytes} {row : RowHandle} (bound : index.trie.get? entry = some row) :
    (∃ key, entry = Key.entry key row) ∧
      ∃ newest older, table.rows[row]? = some (newest :: older) := by
  obtain ⟨work, audited⟩ := tended.audited few
  refine ⟨((audited.ok.store.tables here).indexes hindex).sound bound, ?_⟩
  have hlinked := (audited.accounts.table here).linked ⟨index, hindex, bound⟩
  obtain ⟨newest, older, hchain⟩ := List.exists_cons_of_ne_nil hlinked
  exact ⟨newest, older, hchain ▸ Table.rows_eq hlinked⟩

/-- For each entry it can be said why it is still there. A session has bound it and its transaction is
running, or it is that of the last record that was committed of the row, or it is noted that it is to
go. -/
theorem Tended.entry_answered {i : Nat} {index : Index} (hindex : table.indexes[i]? = some index)
    {entry : Bytes} {row : RowHandle} (bound : index.trie.get? entry = some row) :
    (∃ (s : SessionId) (session : Session) (txn : Transaction) (statement : Nat),
      service.sessions[s]? = some session ∧ session.transaction = some txn ∧
        ⟨statement, tid, .bound i entry row⟩ ∈ txn.log) ∨
    (∃ key, Deed.LastGives ((Chronicle.of history).settled tid row) index.spec key ∧
      entry = Key.entry key row) ∨
    ∃ sequence, ⟨i, entry, row, sequence⟩ ∈ table.outdated := by
  obtain ⟨work, audited⟩ := tended.audited few
  cases (audited.accounts.table here).covered ⟨index, hindex, bound⟩ with
  | @pending id statement hbound =>
    obtain ⟨txn, running, hlog⟩ := Work.Ok.exists_of_mem_log hbound
    obtain ⟨s, session, hsession, hruns⟩ := audited.ok.linked.running running
    exact Or.inl ⟨s, session, txn, statement, hsession, hruns, hlog⟩
  | last hspec gives heq =>
    obtain ⟨found, hfound, rfl⟩ := Table.spec?_eq_some.mp hspec
    cases hindex.symm.trans hfound
    exact Or.inr (Or.inl ⟨_, gives, heq⟩)
  | outdated note => exact Or.inr (Or.inr ⟨_, note⟩)

section Reclaiming

variable (idle : service.store.ledger.Idle) (depth : table.maxVersionHistory = 0)
  {tables : List TableId} (hin : tid ∈ tables)
include idle depth hin

/-- Reclaiming a table without history while nobody is running leaves what was committed last, and nothing
else. -/
theorem Tended.spotless : ∃ after,
    (service.handle (.reclaim tables)).1.store.tables[tid]? = some after ∧
      after.Spotless (.of history) tid := by
  obtain ⟨work, audited⟩ := tended.audited few
  exact audited.accounts.spotless audited.shows audited.ok.store idle here depth hin

/-- Then indexes of the same fields have the same entries, whenever they were built. -/
theorem Tended.same_entries {i j : Nat} {index other : Index}
    (hindex : table.indexes[i]? = some index) (hother : table.indexes[j]? = some other)
    (same : other.spec.parts = index.spec.parts) : ∃ (after : Table) (index' other' : Index),
      (service.handle (.reclaim tables)).1.store.tables[tid]? = some after ∧
        after.indexes[i]? = some index' ∧ after.indexes[j]? = some other' ∧
          ∀ entry, index'.trie.get? entry = other'.trie.get? entry := by
  obtain ⟨after, hafter, spotless⟩ := tended.spotless few here idle depth hin
  obtain ⟨_, ok⟩ := tended.reached.ok
  obtain ⟨_, _, answered⟩ := handle_moves ok (.reclaim tables)
  obtain ⟨_, hfound, hextends⟩ := (answered.moves.extends ok.store).keeps here
  cases hafter.symm.trans hfound
  obtain ⟨index', hindex', hspec, _⟩ := hextends.indexes hindex
  obtain ⟨other', hother', hspec', _⟩ := hextends.indexes hother
  have hkeys : other'.spec.keyOf = index'.spec.keyOf := by
    funext record
    rw [KeySpec.keyOf, KeySpec.keyOf, KeySpec.partsOf, KeySpec.partsOf, hspec, hspec', same]
  refine ⟨after, index', other', hafter, hindex', hother', fun entry => ?_⟩
  exact Option.ext fun row => spotless.same_entries hindex' hother' hkeys entry row

end Reclaiming

end Holding

/-! ## 4. Two runs -/

/-- A table without rows, and with an index. -/
def indexed : Service := (small.handle (.buildIndex 0 byteIndex)).1

/-- The first session commits a row, and then another byte for it. -/
def rekeying : List Request :=
  [.insert 1 0 (byteRecord 1), .commit 1 .session, .begin 1 1, .update 1 0 firstRow (byteRecord 2),
    .commit 1 .session]

/-- A further index of the same keys. -/
def lateIndex : KeySpec := { byteIndex with name := "by key, late" }

/-- The table has been reclaimed, and been given the further index. -/
def doubled : Service :=
  (((indexed.run rekeying).1.handle (.reclaim [0])).1.handle (.buildIndex 0 lateIndex)).1

/-- The row gets a third byte. -/
def rekeyingAgain : List Request :=
  [.begin 1 1, .update 1 0 firstRow (byteRecord 3), .commit 1 .session]

theorem tended_indexed : Tended 0 [] indexed := by
  have hstart : Tended 0 [] (({} : Service).withTable "t" byteSchema {}) :=
    Tended.start.added "t" byteSchema {}
  have hapart : ∀ request ∈ twoSessions, 0 ∉ request.tended := by decide
  have htended := hstart.run hapart
  have hempty : (small.store.tables[0]?.filter (·.rows.isEmpty)).isSome = true := by decide +kernel
  obtain ⟨table, hempty⟩ := Option.isSome_iff_exists.mp hempty
  obtain ⟨here, hrows⟩ := Option.filter_eq_some_iff.mp hempty
  exact htended.build_of_empty here byteIndex (Std.ExtTreeMap.isEmpty_iff.mp hrows)

theorem tended_doubled : Tended 0 (indexed.happenings rekeying) doubled := by
  have hapart : ∀ request ∈ rekeying, 0 ∉ request.tended := by decide
  have htended := tended_indexed.run hapart
  rw [List.nil_append] at htended
  have hidle : (indexed.run rekeying).1.store.ledger.Idle := by decide +kernel
  have hfew : (indexed.run rekeying).1.store.ledger.lastId < 2 ^ 40 := by decide +kernel
  have hdepth : ((indexed.run rekeying).1.store.tables[0]?.filter
      (·.maxVersionHistory = 0)).isSome = true := by decide +kernel
  obtain ⟨table, hdepth⟩ := Option.isSome_iff_exists.mp hdepth
  obtain ⟨here, hdepth⟩ := Option.filter_eq_some_iff.mp hdepth
  obtain ⟨after, hafter, spotless⟩ :=
    htended.spotless hfew here hidle (of_decide_eq_true hdepth) (List.mem_singleton.mpr rfl)
  have hreclaimed := htended.reclaim_of_idle hidle [0]
  exact hreclaimed.build_of_spotless hafter lateIndex spotless

/-- Reclaimed once more, the two indexes have the same entries. -/
theorem doubled_same_entries : ∃ (table : Table) (index other : Index),
    ((doubled.run rekeyingAgain).1.handle (.reclaim [0])).1.store.tables[0]? = some table ∧
      table.indexes[0]? = some index ∧ table.indexes[1]? = some other ∧
        ∀ entry, index.trie.get? entry = other.trie.get? entry := by
  have hapart : ∀ request ∈ rekeyingAgain, 0 ∉ request.tended := by decide
  have htended := tended_doubled.run hapart
  have hstore : ((doubled.run rekeyingAgain).1.store.tables[0]?.filter fun table : Table =>
      (doubled.run rekeyingAgain).1.store.ledger.active.isEmpty ∧
        (doubled.run rekeyingAgain).1.store.ledger.lastId < 2 ^ 40 ∧ table.maxVersionHistory = 0 ∧
          (table.indexes[0]?).map (·.spec.parts) = some [0] ∧
            (table.indexes[1]?).map (·.spec.parts) = some [0]).isSome = true := by
    cbv
  obtain ⟨table, hstore⟩ := Option.isSome_iff_exists.mp hstore
  obtain ⟨here, hstore⟩ := Option.filter_eq_some_iff.mp hstore
  obtain ⟨hempty, hfew, hdepth, hown, hsame⟩ := of_decide_eq_true hstore
  obtain ⟨index, hindex, hown⟩ := Option.map_eq_some_iff.mp hown
  obtain ⟨other, hother, hsame⟩ := Option.map_eq_some_iff.mp hsame
  exact htended.same_entries hfew here (Ledger.idle_iff.mpr hempty) hdepth
    (List.mem_singleton.mpr rfl) hindex hother (hsame.trans hown.symm)

/-- The first session commits a row and then another byte for it. The second gives it the first byte back,
and the table is reclaimed before that is undone. -/
def untimely : List Request :=
  rekeying ++ [.begin 2 2, .update 2 0 firstRow (byteRecord 1), .reclaim [0], .rollback 2 .session]

/-- The entry of the first byte then stays, though nobody is running and the table is reclaimed again. -/
theorem untimely_keeps_entry : (indexed.run untimely).1.store.ledger.Idle ∧
    ∃ (table : Table) (index : Index),
      ((indexed.run untimely).1.handle (.reclaim [0])).1.store.tables[0]? = some table ∧
        (table.chainOf firstRow).map (·.record) = [byteRecord 2] ∧ table.indexes[0]? = some index ∧
          index.trie.get? (Key.entry [1] firstRow) = some firstRow := by
  have hkept : (((indexed.run untimely).1.handle (.reclaim [0])).1.store.tables[0]?.filter
      fun table : Table => (table.chainOf firstRow).map (·.record) = [byteRecord 2] ∧
        ((table.indexes[0]?).filter
          (·.trie.get? (Key.entry [1] firstRow) = some firstRow)).isSome).isSome = true := by
    decide +kernel
  obtain ⟨table, hkept⟩ := Option.isSome_iff_exists.mp hkept
  obtain ⟨here, htable⟩ := Option.filter_eq_some_iff.mp hkept
  obtain ⟨hrecords, hindex⟩ := of_decide_eq_true htable
  obtain ⟨index, hindex⟩ := Option.isSome_iff_exists.mp hindex
  obtain ⟨hthere, hentry⟩ := Option.filter_eq_some_iff.mp hindex
  exact ⟨by decide +kernel, table, index, here, hrecords, hthere, of_decide_eq_true hentry⟩

end Service
end SnapshotStore
