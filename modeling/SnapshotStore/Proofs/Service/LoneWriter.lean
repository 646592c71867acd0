import Mathlib
import SnapshotStore.Proofs.Service.Overwriting
import SnapshotStore.Proofs.Service.Refused
import SnapshotStore.Proofs.Table.Verdict

/-!
# What a lone writer is told of a key

Whether a key is taken is asked of the entries of an index, and entries outlive what they were made for:
a row that was updated has left the entry of its old key behind, a row that is gone may have left all of
its entries, and an index built late has entries for versions that were superseded before. While other
transactions run, some of this has to count, because they may yet be undone.

To a transaction that runs alone none of it counts. Every version is then its own or committed, so the
version below the newest is never asked about, and the answer is about newest versions only: the key is
taken if the newest version of another row carries it and is not deleted (`Table.contested_iff_takenIn`).
A write of a record that fits is refused for that and for nothing else (`Service.Reached.lone_write`).

Two things a transaction may find in its way are no matter of keys. It may be doomed by a conflict that it
met before, in which case it is told of a conflict once more, whatever it writes
(`Service.doomed_lone_insert`). And a mark loses the high bits of an id of 2^40 or more, so that with so
many transactions begun a mark may name somebody else; up to then every mark is that of the lone writer or
of one that committed.
-/

namespace SnapshotStore

/-- No transaction runs but that one. -/
def Ledger.Alone (l : Ledger) (id : Int) : Prop :=
  ∀ other snapshot, l.active[other]? = some snapshot → other = id

/-- The version bears a mark that holds for the transaction: its own, or one that is committed. -/
def Version.GivenUp (v : Version) (l : Ledger) (transaction : Int) : Prop :=
  ∃ stamp, v.deleted = some stamp ∧
    (stamp.transaction = transaction ∨ l.isCommitted stamp.transaction = true)

theorem Ledger.alone_iff {l : Ledger} {id : Int} :
    (∀ other ∈ l.active.toList.map Prod.fst, other = id) ↔ l.Alone id := by
  constructor
  · intro h other snapshot hother
    have hmem := Std.ExtTreeMap.mem_toList_iff_getElem?_eq_some.mpr hother
    exact h other (List.mem_map_of_mem hmem)
  · intro alone other hother
    obtain ⟨⟨id', snapshot⟩, hmem, rfl⟩ := List.mem_map.mp hother
    exact alone id' snapshot (Std.ExtTreeMap.mem_toList_iff_getElem?_eq_some.mp hmem)

instance (l : Ledger) (id : Int) : Decidable (l.Alone id) := decidable_of_iff _ Ledger.alone_iff

/-! ## 1. Newest versions decide -/

namespace Table

open Chain

/-- The index of that number is unique, and there the newest version of a row other than `row` carries
the key of the record and is not given up. -/
def TakenIn (table : Table) (l : Ledger) (transaction : Int) (record : Record) (row : RowHandle)
    (i : Nat) : Prop :=
  ∃ index key other newest older, table.indexes[i]? = some index ∧ index.spec.unique = true ∧
    index.spec.Keyed table.maxKeyLength record key ∧ other ≠ row ∧
    table.rows[other]? = some (newest :: older) ∧ index.spec.keyOf newest.record = .ok key ∧
    ¬ newest.GivenUp l transaction

variable {l : Ledger} {work : Work} {tid : TableId} {table : Table} {transaction : Int}
  {record : Record} {row : RowHandle}

/-- A version is the lone writer's or committed. -/
theorem Ok.created_alone (ok : Ok l work tid [] table) (wok : Work.Ok l work)
    (alone : l.Alone transaction) {v : Version} (h : v ∈ table.chainOf row) :
    v.created.transaction = transaction ∨ l.isCommitted v.created.transaction = true := by
  obtain ⟨holder, layered, _⟩ := ok.held row
  refine (layered.creator v h).imp_left fun ⟨hlog, hcreated⟩ => ?_
  -- Who has the row in its log is running, and there is only one who runs.
  obtain ⟨snapshot, hactive⟩ := wok.running_of_rowLog hlog
  rw [hcreated]
  exact alone holder snapshot hactive

/-- With nobody else running, a row owns a key through its newest version or not at all. -/
theorem owns_alone {spec : KeySpec} {key : Bytes} {newest : Version} {older : Chain}
    (created : newest.created.transaction = transaction ∨
      l.isCommitted newest.created.transaction = true) :
    Owns spec l transaction key (newest :: older) ↔
      spec.keyOf newest.record = .ok key ∧ ¬ newest.GivenUp l transaction := by
  have hkept : newest.deleted.any (fun stamp =>
        stamp.transaction == transaction || l.isCommitted stamp.transaction) = false ↔
      ¬ newest.GivenUp l transaction := by
    rw [← Bool.not_eq_true, Option.any_eq_true]
    simp only [Version.GivenUp, Bool.or_eq_true, beq_iff_eq]
  rw [Owns, hkept, and_comm]
  refine and_congr_left fun _ => or_iff_left ?_
  -- The version below the newest counts only while the newest is somebody else's and open.
  rintro ⟨hother, hopen, _⟩
  rcases created with hown | hcommitted
  · exact hother hown
  · rw [hcommitted] at hopen
    cases hopen

theorem Ok.owns_alone_iff (ok : Ok l work tid [] table) (wok : Work.Ok l work)
    (alone : l.Alone transaction) {spec : KeySpec} {key : Bytes} {other : RowHandle} :
    Owns spec l transaction key (table.chainOf other) ↔ ∃ newest older,
      table.rows[other]? = some (newest :: older) ∧ spec.keyOf newest.record = .ok key ∧
        ¬ newest.GivenUp l transaction := by
  have hnewest : ∀ {newest : Version} {older : Chain}, table.chainOf other = newest :: older →
      newest.created.transaction = transaction ∨
        l.isCommitted newest.created.transaction = true := by
    intro newest older hchain
    exact ok.created_alone wok alone (by rw [hchain]; exact List.mem_cons_self)
  constructor
  · intro howns
    cases hchain : table.chainOf other with
    | nil =>
      rw [hchain] at howns
      exact howns.elim
    | cons newest older =>
      have hrow := rows_eq (by rw [hchain]; exact List.cons_ne_nil newest older)
      rw [hchain] at howns hrow
      exact ⟨newest, older, hrow, (owns_alone (hnewest hchain)).mp howns⟩
  · rintro ⟨newest, older, hrow, h⟩
    have hchain := chainOf_eq hrow
    rw [hchain]
    exact (owns_alone (hnewest hchain)).mpr h

/-- What the entries of an index say to a lone writer is what the newest versions of the rows say. -/
theorem contested_iff_takenIn (ok : Ok l work tid [] table) (wok : Work.Ok l work)
    (alone : l.Alone transaction) (i : Nat) :
    table.Contested l transaction record row i ↔ table.TakenIn l transaction record row i := by
  constructor
  · rintro ⟨index, key, hindex, hunique, keyed, hfree⟩
    rw [Free] at hfree
    push Not at hfree
    obtain ⟨other, hne, howns⟩ := hfree
    obtain ⟨newest, older, hrow, hkey, hkept⟩ := (ok.owns_alone_iff wok alone).mp howns
    exact ⟨index, key, other, newest, older, hindex, hunique, keyed, hne, hrow, hkey, hkept⟩
  · rintro ⟨index, key, other, newest, older, hindex, hunique, keyed, hne, hrow, hkey, hkept⟩
    refine ⟨index, key, hindex, hunique, keyed, fun hfree => ?_⟩
    exact hfree other hne ((ok.owns_alone_iff wok alone).mpr ⟨newest, older, hrow, hkey, hkept⟩)

end Table

/-! ## 2. What is replied -/

namespace Reply

variable {taken : Nat → Prop} {ref : Table.RowRef}

/-- The reply to a write names the least index in which the key is taken, and is the version that was
written if there is none. -/
structure Decides (reply : Reply) (taken : Nat → Prop) (ref : Table.RowRef) : Prop where
  refused : ∀ i, reply = .wrote (.keyExists i) ↔ IsLeast {i | taken i} i
  written : reply = .wrote (.written ref) ↔ ∀ i, ¬ taken i

theorem decides_of_outcome {outcome : Except Error WriteOutcome}
    (h : (∃ i, IsLeast {i | taken i} i ∧ outcome = .ok (.keyExists i)) ∨
      (∀ i, ¬ taken i) ∧ outcome = .ok (.written ref)) :
    (Reply.of .wrote outcome).Decides taken ref := by
  rcases h with ⟨i, hleast, rfl⟩ | ⟨hnone, rfl⟩
  · refine ⟨fun j => ⟨fun hreply => ?_, fun hj => ?_⟩, ⟨fun hreply => ?_, fun hnone => ?_⟩⟩
    · cases hreply
      exact hleast
    · rw [hleast.unique hj]
      rfl
    · cases hreply
    · exact absurd hleast.1 (hnone i)
  · refine ⟨fun j => ⟨fun hreply => ?_, fun hj => ?_⟩, ⟨fun _ => hnone, fun _ => rfl⟩⟩
    · cases hreply
    · exact absurd hj.1 (hnone j)

/-- What is decided by keys is a refusal for a key or a write. -/
theorem Decides.cases {reply : Reply} (decides : reply.Decides taken ref) :
    (∃ i, reply = .wrote (.keyExists i)) ∨ reply = .wrote (.written ref) := by
  by_cases htaken : ∃ i, taken i
  · left
    have hleast : IsLeast {i | taken i} (sInf {i | taken i}) :=
      ⟨Nat.sInf_mem htaken, fun _ hi => Nat.sInf_le hi⟩
    exact ⟨_, (decides.refused _).mpr hleast⟩
  · right
    exact decides.written.mpr fun i hi => htaken ⟨i, hi⟩

end Reply

namespace Service

variable {history : List Event} {service : Service} {s : SessionId} {session : Session}
  {txn : Transaction} {tid : TableId} {table : Table} {record : Record}

/-- While few transactions have begun, all marks that a lone writer finds are its own or committed. -/
theorem Reached.givenUp_iff_isMarked (reached : Reached history service)
    (few : service.store.ledger.lastId < 2 ^ 40) (here : service.store.tables[tid]? = some table)
    {id : Int} (alone : service.store.ledger.Alone id) {row : RowHandle} {newest : Version}
    {older : Chain} (there : table.rows[row]? = some (newest :: older)) :
    newest.GivenUp service.store.ledger id ↔ newest.isMarked = true := by
  rw [Version.isMarked, Option.isSome_iff_exists]
  constructor
  · intro hgiven
    obtain ⟨stamp, hstamp, _⟩ := hgiven
    exact ⟨stamp, hstamp⟩
  · intro hmarked
    obtain ⟨stamp, hstamp⟩ := hmarked
    refine ⟨stamp, hstamp, ?_⟩
    obtain ⟨work, ok, shows⟩ := reached.shows few
    have inOrder := (shows.tables here).inOrder (ok.store.tables here) ok.store.ledger ok.store.runs
      shows.ledger shows.work few there
    rcases inOrder.marked newest List.mem_cons_self stamp hstamp with ⟨_, hcommitted⟩ | hactive
    · exact Or.inr hcommitted
    · obtain ⟨snapshot, hsnapshot⟩ := Ledger.isActive_iff.mp hactive
      exact Or.inl (alone _ snapshot hsnapshot)

/-- A transaction that runs alone and is not doomed is refused a record that fits if and only if the key
is taken, and is told the least index in which it is: on an insert, and on an update that meets no
conflict, for which only the indexes count in which the key changes. -/
theorem Reached.lone_write (reached : Reached history service)
    (asks : service.sessions[s]? = some session) (runs : session.transaction = some txn)
    (alive : txn.doomed = false) (here : service.store.tables[tid]? = some table)
    (alone : service.store.ledger.Alone txn.id) (checked : table.checkRecord record = .ok ())
    (fits : table.Fits record) :
    (∀ row, RowHandle.ofNat? table.nextHandle = some row →
      (service.handle (.insert s tid record)).2.Decides
        (table.TakenIn service.store.ledger txn.id record row)
        ⟨row, table.newVersion txn record, []⟩) ∧
    (∀ row newest older, table.rows[row]? = some (newest :: older) →
      newest.isWritable service.store.ledger txn.id txn.snapshot = true →
        (service.handle (.update s tid row record)).2.Decides
          (fun i => table.Rekeyed newest.record record i ∧
            table.TakenIn service.store.ledger txn.id record row i)
          ⟨row, table.newVersion txn record, newest :: older⟩) ∧
    (service.store.ledger.lastId < 2 ^ 40 → ∀ (other : RowHandle) newest older,
      table.rows[other]? = some (newest :: older) →
        (newest.GivenUp service.store.ledger txn.id ↔ newest.isMarked = true)) := by
  obtain ⟨work, ok⟩ := reached.ok
  have tableOk := ok.store.tables here
  have hcontested : ∀ row i, table.Contested service.store.ledger txn.id record row i ↔
      table.TakenIn service.store.ledger txn.id record row i :=
    fun row i => Table.contested_iff_takenIn tableOk ok.store.runs alone i
  refine ⟨fun row hrow => ?_, fun row newest older there writable => ?_,
    fun few other newest older there => reached.givenUp_iff_isMarked few here alone there⟩
  · have houtcome := tableOk.insertRow_outcome txn hrow fits
    simp only [hcontested] at houtcome
    rw [reply_insert asks runs alive here, checked]
    exact Reply.decides_of_outcome houtcome
  · have hchain : table.chainOf row = newest :: older := Table.chainOf_eq there
    have houtcome := tableOk.updateRow_outcome txn hchain writable fits
    simp only [hcontested] at houtcome
    rw [reply_update asks runs alive here, checked]
    exact Reply.decides_of_outcome houtcome

/-! ## 3. Two runs -/

/-- The third row of a table. -/
def thirdRow : RowHandle := ⟨3, by decide, by decide⟩

/-- The first session gives the byte of one row up for another, and then the whole of a second row. Both
bytes are still in the index when it begins once more. -/
def givingUp : List Request :=
  [.buildIndex 0 uniqueIndex, .insert 1 0 (byteRecord 1), .insert 1 0 (byteRecord 2),
    .commit 1 .session, .update 1 0 firstRow (byteRecord 3), .delete 1 0 secondRow,
    .commit 1 .session, .begin 1 1]

/-- There are three entries, and only the byte that is in use is refused. -/
theorem givenUp_free : ∃ (session : Session) (txn : Transaction) (table : Table),
    (small.run givingUp).1.sessions[1]? = some session ∧ session.transaction = some txn ∧
    txn.doomed = false ∧ (small.run givingUp).1.store.tables[0]? = some table ∧
    (small.run givingUp).1.store.ledger.Alone txn.id ∧
    table.indexes.map (·.trie.size) = [3] ∧
    IsLeast {i | table.TakenIn (small.run givingUp).1.store.ledger txn.id (byteRecord 3) thirdRow i} 0 ∧
    (∀ i, ¬ table.TakenIn (small.run givingUp).1.store.ledger txn.id (byteRecord 1) thirdRow i) ∧
    ∀ i, ¬ table.TakenIn (small.run givingUp).1.store.ledger txn.id (byteRecord 2) thirdRow i := by
  have reached := reached_small.run givingUp
  have hruns : ((small.run givingUp).1.sessions[1]?.bind fun session : Session =>
      session.transaction.filter fun txn : Transaction =>
        txn.doomed = false ∧ (small.run givingUp).1.store.ledger.Alone txn.id).isSome = true := by
    decide +kernel
  obtain ⟨session, txn, asks, runs, hrunning⟩ := exists_running hruns
  obtain ⟨alive, alone⟩ := of_decide_eq_true hrunning
  have hhere : ((small.run givingUp).1.store.tables[0]?.filter fun table : Table =>
      table.indexes.map (·.trie.size) = [3] ∧ RowHandle.ofNat? table.nextHandle = some thirdRow ∧
        ∀ record ∈ [byteRecord 1, byteRecord 2, byteRecord 3],
          table.checkRecord record = .ok () ∧ table.Fits record).isSome = true := by
    decide +kernel
  obtain ⟨table, hhere⟩ := Option.isSome_iff_exists.mp hhere
  obtain ⟨here, htable⟩ := Option.filter_eq_some_iff.mp hhere
  obtain ⟨hentries, hrow, hrecords⟩ := of_decide_eq_true htable
  have decides : ∀ record ∈ [byteRecord 1, byteRecord 2, byteRecord 3],
      ((small.run givingUp).1.handle (.insert 1 0 record)).2.Decides
        (table.TakenIn (small.run givingUp).1.store.ledger txn.id record thirdRow)
        ⟨thirdRow, table.newVersion txn record, []⟩ := by
    intro record hrecord
    obtain ⟨checked, fits⟩ := hrecords record hrecord
    exact (reached.lone_write asks runs alive here alone checked fits).1 thirdRow hrow
  have htaken : ((small.run givingUp).1.handle (.insert 1 0 (byteRecord 3))).2 =
      .wrote (.keyExists 0) := by
    decide +kernel
  have hfree : ∀ record ∈ [byteRecord 1, byteRecord 2],
      ((small.run givingUp).1.handle (.insert 1 0 record)).2.refusesWrite = false := by
    decide +kernel
  have hnone : ∀ record ∈ [byteRecord 1, byteRecord 2],
      ∀ i, ¬ table.TakenIn (small.run givingUp).1.store.ledger txn.id record thirdRow i := by
    intro record hrecord
    have hdecides := decides record (List.mem_append_left [byteRecord 3] hrecord)
    rcases hdecides.cases with ⟨i, hrefused⟩ | hwritten
    · have hrefuses := hfree record hrecord
      rw [hrefused] at hrefuses
      cases hrefuses
    · exact hdecides.written.mp hwritten
  exact ⟨session, txn, table, asks, runs, alive, here, alone, hentries,
    ((decides (byteRecord 3) (by simp)).refused 0).mp htaken, hnone _ (by simp), hnone _ (by simp)⟩

/-- The first session loses a conflict to the second, which has ended. -/
def overtakenAlone : List Request := .buildIndex 0 uniqueIndex :: overtaken ++ [lateUpdate]

/-- The first session runs alone and its key is nobody's, yet it is told of a conflict. -/
theorem doomed_lone_insert : ∃ (history : List Event) (service : Service) (session : Session)
    (txn : Transaction) (table : Table), Reached history service ∧
    service.sessions[1]? = some session ∧ session.transaction = some txn ∧ txn.doomed = true ∧
    service.store.tables[0]? = some table ∧ service.store.ledger.Alone txn.id ∧
    table.checkRecord (byteRecord 5) = .ok () ∧ table.Fits (byteRecord 5) ∧
    RowHandle.ofNat? table.nextHandle = some thirdRow ∧
    (service.handle (.insert 1 0 (byteRecord 5))).2 = .wrote .conflict ∧
    ¬ (service.handle (.insert 1 0 (byteRecord 5))).2.Decides
      (table.TakenIn service.store.ledger txn.id (byteRecord 5) thirdRow)
      ⟨thirdRow, table.newVersion txn (byteRecord 5), []⟩ := by
  have reached := reached_small.run overtakenAlone
  have hruns : ((small.run overtakenAlone).1.sessions[1]?.bind fun session : Session =>
      session.transaction.filter fun txn : Transaction =>
        txn.doomed = true ∧ (small.run overtakenAlone).1.store.ledger.Alone txn.id).isSome = true := by
    decide +kernel
  obtain ⟨session, txn, asks, runs, hrunning⟩ := exists_running hruns
  obtain ⟨hdoomed, alone⟩ := of_decide_eq_true hrunning
  have hhere : ((small.run overtakenAlone).1.store.tables[0]?.filter fun table : Table =>
      RowHandle.ofNat? table.nextHandle = some thirdRow ∧
        table.checkRecord (byteRecord 5) = .ok () ∧ table.Fits (byteRecord 5)).isSome = true := by
    decide +kernel
  obtain ⟨table, hhere⟩ := Option.isSome_iff_exists.mp hhere
  obtain ⟨here, htable⟩ := Option.filter_eq_some_iff.mp hhere
  obtain ⟨hrow, checked, fits⟩ := of_decide_eq_true htable
  have hconflict : ((small.run overtakenAlone).1.handle (.insert 1 0 (byteRecord 5))).2 =
      .wrote .conflict := by
    decide +kernel
  refine ⟨_, _, session, txn, table, reached, asks, runs, hdoomed, here, alone, checked, fits, hrow,
    hconflict, fun decides => ?_⟩
  rcases decides.cases with ⟨i, hrefused⟩ | hwritten
  · rw [hconflict] at hrefused
    cases hrefused
  · rw [hconflict] at hwritten
    cases hwritten

end Service
end SnapshotStore
