import Mathlib
import SnapshotStore.Proofs.Twins.Reads

/-!
# Operations on twins

The same operation is asked of two stores with one history, by sessions of one face (`Abreast`). Both
enter a transaction or neither does, and it is the same one (`Abreast.enter`). Then what comes of the
operation is alike, and peers and faces stay (`Parallel`). Only a request to go on with a scan needs
more, because it depends on where the scans rest: that their courses are alike.
-/

namespace SnapshotStore
namespace Store

/-- The same is asked of two stores with one history. -/
structure Abreast (a : Store) (work : Work) (session : Session) (b : Store) (work' : Work)
    (session' : Session) (c : Chronicle) : Prop where
  twins : Twins a work b work' c
  peers : a.Peers b
  face : session.face = session'.face
  held : ∀ txn, session.transaction = some txn → work txn.id = some txn
  held' : ∀ txn, session'.transaction = some txn → work' txn.id = some txn

/-- Two steps lead to peers and to sessions of one face. -/
structure Parallel {α β : Type} (x : Step α) (y : Step β) : Prop where
  peers : x.1.Peers y.1
  face : x.2.1.face = y.2.1.face

/-- Two stores run the same transaction. -/
structure Running (a : Store) (txn : Transaction) (b : Store) (txn' : Transaction) : Prop where
  twins : ∃ work work' c, Twins a work b work' c ∧ work txn.id = some txn ∧
    work' txn'.id = some txn'
  face : txn.face = txn'.face

/-- Which records are refused is part of the outline. -/
theorem checkRecord_of_outline (record : Record) {table table' : Table}
    (same : table.outline = table'.outline) :
    table.checkRecord record = table'.checkRecord record := by
  have hschema : table.schema = table'.schema := congrArg Table.Outline.schema same
  rw [Table.checkRecord, Table.checkRecord, hschema]

/-- An index is there in both, with one specification, or is refused by both for the same reason. -/
theorem Peers.indexFor {a b : Store} (peers : a.Peers b) (tid : TableId) (i : Nat) (key : Bytes) :
    (∃ error, a.indexFor tid i key = .error error ∧ b.indexFor tid i key = .error error) ∨
    ∃ table table' index index', a.indexFor tid i key = .ok (table, index) ∧
      b.indexFor tid i key = .ok (table', index') ∧ a.tables[tid]? = some table ∧
      b.tables[tid]? = some table' ∧ table.indexes[i]? = some index ∧
      table'.indexes[i]? = some index' ∧ index'.spec = index.spec ∧
      key.length ≤ table.maxKeyLength ∧ table'.maxKeyLength = table.maxKeyLength := by
  rcases peers.table tid with ⟨hleft, hright⟩ | ⟨table, table', hleft, hright, same⟩
  · rw [Store.indexFor, Store.indexFor, Store.table, Store.table, hleft, hright]
    exact Or.inl ⟨_, rfl, rfl⟩
  have hname : table.name = table'.name := congrArg Table.Outline.name same
  have hlimit : table'.maxKeyLength = table.maxKeyLength :=
    congrArg Table.Outline.maxKeyLength same.symm
  cases hindex : table.indexes[i]? with
  | none =>
    have hindex' : table'.indexes[i]? = none := by
      cases h : table'.indexes[i]? with
      | none => rfl
      | some index' =>
        obtain ⟨index, hthere, _⟩ := Table.exists_index_of_outline same h
        cases hindex.symm.trans hthere
    rw [Store.indexFor, Store.indexFor, Store.table, Store.table, hleft, hright]
    dsimp only [Fallible.ok_bind]
    rw [Table.index, Table.index, hindex, hindex', hname]
    exact Or.inl ⟨_, rfl, rfl⟩
  | some index =>
    obtain ⟨index', hindex', hspec⟩ := Table.exists_index_of_outline same.symm hindex
    rcases Nat.lt_or_ge table.maxKeyLength key.length with long | short
    · rw [indexFor_eq_error hleft hindex long,
        indexFor_eq_error hright hindex' (hlimit ▸ long), hlimit]
      exact Or.inl ⟨_, rfl, rfl⟩
    · exact Or.inr ⟨table, table', index, index', indexFor_eq_ok hleft hindex short,
        indexFor_eq_ok hright hindex' (hlimit ▸ short), hleft, hright, hindex, hindex', hspec, short,
        hlimit⟩

/-- Where both scans have returned the same row last, they go on to the same row. -/
theorem Running.advanceScan {after after' : Store} {txn txn' : Transaction}
    (running : Running after txn after' txn') (peers : after.Peers after')
    {scan scan' : IndexScan} {course course' : ScanCourse} (fits : course.Fits after scan)
    (fits' : course'.Fits after' scan') (alike : course.Alike course') (own : Bool) :
    Agree Finding.Alike (after.advanceScan txn course.table scan own).2
      (after'.advanceScan txn' course.table scan' own).2 := by
  obtain ⟨⟨w, w', c, twins, hw, hw'⟩, htxn⟩ := running
  obtain ⟨table, index, here, hindex⟩ := fits.there
  obtain ⟨table', index', here', hindex'⟩ := fits'.there
  rw [← alike.table] at here'
  rw [← alike.index] at hindex'
  have hsame : scan.kind = scan'.kind := by rw [fits.kind, fits'.kind, alike.kind]
  -- The indexes need not be the same, but they are over the same columns.
  have hspec : index'.spec = index.spec := by
    rcases peers.table course.table with ⟨hnone, _⟩ | ⟨_, _, hu, hu', same⟩
    · cases here.symm.trans hnone
    cases here.symm.trans hu
    cases here'.symm.trans hu'
    obtain ⟨found, hfound, hspec⟩ := Table.exists_index_of_outline same.symm hindex
    cases hindex'.symm.trans hfound
    exact hspec
  rw [advanceScan_eq after txn own here (fits.table ▸ here) (fits.index ▸ hindex),
    advanceScan_eq after' txn' own here' (by rw [fits'.table, ← alike.table]; exact here')
      (by rw [fits'.index, ← alike.index]; exact hindex'), ← Transaction.view_of_face htxn own]
  dsimp only
  rcases alike.last_cases with ⟨hlast, hlast'⟩ | ⟨last, last', hlast, hlast', hrow⟩
  · rw [IndexScan.advance, IndexScan.advance, if_pos (fits.ended hlast),
      if_pos (fits'.ended hlast')]
    exact .done (.same _)
  · obtain ⟨t, i, key, ht, hi, hkey, hcovers, hrests⟩ := fits.rests last hlast
    obtain ⟨t', i', key', ht', hi', hkey', hcovers', hrests'⟩ := fits'.rests last' hlast'
    rw [← alike.table] at ht'
    rw [← alike.index] at hi'
    cases here.symm.trans ht
    cases here'.symm.trans ht'
    cases hindex.symm.trans hi
    cases hindex'.symm.trans hi'
    -- The row has one record in both, and so one key.
    have heq : key' = key := by
      rw [hspec, ← hrow.record, hkey] at hkey'
      exact (Except.ok.inj hkey').symm
    rw [← fits.kind] at hcovers hrests
    rw [← fits'.kind] at hcovers' hrests'
    obtain ⟨found?, hfound, hfirst, _⟩ := IndexScan.advance_spec
      ((twins.ok.tables here).indexes hindex) (twins.viewing hw own) hrests hcovers
    obtain ⟨found?', hfound', hfirst', _⟩ := IndexScan.advance_spec
      ((twins.ok'.tables here').indexes hindex') (twins.viewing' hw' htxn own) hrests' hcovers'
    rw [hfound, hfound']
    rw [hspec, heq, ← hsame, ← alike.start, ← alike.inclusive, ← hrow.handle] at hfirst'
    exact .done ((twins.sight here here' hw hw' htxn own).first hfirst hfirst')

namespace Abreast

variable {a b : Store} {work work' : Work} {session session' : Session} {c : Chronicle}
  (abreast : Abreast a work session b work' session' c)
include abreast

/-- What comes of entering a transaction in both. -/
theorem enter :
    (∃ error, a.enter session = .error error ∧ b.enter session' = .error error) ∨
    ∃ after after' asking asking' txn txn', a.enter session = .ok (after, asking, txn) ∧
      b.enter session' = .ok (after', asking', txn') ∧ after.Peers after' ∧
      asking.face = asking'.face ∧ after.tables = a.tables ∧ after'.tables = b.tables ∧
      txn.doomed = txn'.doomed ∧
      (after.ledger.lastId < 2 ^ 40 → Running after txn after' txn') := by
  obtain ⟨twins, peers, face, held, held'⟩ := abreast
  refine (peers.enter face).imp_right ?_
  rintro ⟨after, after', asking, asking', txn, txn', henter, henter', hpeers, hface, htxn⟩
  obtain ⟨events, w, serves, hrunning, hentered, htables⟩ := enter_serves twins.ok held henter
  obtain ⟨events', w', serves', hrunning', hentered', htables'⟩ :=
    enter_serves twins.ok' held' henter'
  obtain ⟨hid, _, _, hdoomed⟩ := Transaction.face_eq_iff.mp htxn
  refine ⟨after, after', asking, asking', txn, txn', henter, henter', hpeers, hface, htables,
    htables', hdoomed, fun few => ?_⟩
  have few' : after'.ledger.lastId < 2 ^ 40 := hpeers.ledger.lastId ▸ few
  -- Whether a transaction begins is the same in both, and so is what is told of it.
  have hevents : events' = events := by
    rcases Session.transaction_of_face face with ⟨hleft, hright⟩ | ⟨_, _, hleft, hright, _⟩
    · rcases hentered with ⟨h, _⟩ | ⟨_, rfl, _⟩
      · cases hleft.symm.trans h
      rcases hentered' with ⟨h, _⟩ | ⟨_, rfl, _⟩
      · cases hright.symm.trans h
      rw [hid]
    · rcases hentered with ⟨_, rfl⟩ | ⟨h, _⟩
      · rcases hentered' with ⟨_, rfl⟩ | ⟨h, _⟩
        · rfl
        · cases hright.symm.trans h
      · cases hleft.symm.trans h
  refine ⟨⟨w, w', events.foldl Chronicle.tell c, ⟨serves.moves.ok twins.ok,
    serves'.moves.ok twins.ok', serves.moves.shows twins.ok few twins.shows, ?_, few, few'⟩,
    serves.held txn hrunning, serves'.held txn' hrunning'⟩, htxn⟩
  exact hevents ▸ serves'.moves.shows twins.ok' few' twins.shows'

/-! ## 1. Writes -/

/-- A write comes out the same, if trying it does. -/
theorem write {tid : TableId} {check : Table → Except Error Unit}
    {attempt : Table → Ledger → Transaction → Table.Attempt}
    (checks : ∀ {table table' : Table}, table.outline = table'.outline → check table = check table')
    (tries : ∀ {after after' : Store} {w w' : Work} {c' : Chronicle} {table table' : Table}
      {txn txn' : Transaction}, Twins after w after' w' c' → after.tables[tid]? = some table →
      after'.tables[tid]? = some table' → table.outline = table'.outline → w txn.id = some txn →
      w' txn'.id = some txn' → txn.face = txn'.face →
        (attempt table after.ledger txn).Alike (attempt table' after'.ledger txn'))
    (few : (a.write session tid check attempt).1.ledger.lastId < 2 ^ 40) :
    Parallel (a.write session tid check attempt) (b.write session' tid check attempt) ∧
      Agree WriteOutcome.Alike (a.write session tid check attempt).2.2
        (b.write session' tid check attempt).2.2 := by
  rw [Store.write] at few ⊢
  rw [Store.write, Store.table, Store.table] at *
  rcases abreast.peers.table tid with ⟨hleft, hright⟩ | ⟨table, table', hleft, hright, same⟩
  · rw [hleft, hright]
    exact ⟨⟨abreast.peers, abreast.face⟩, .failed _⟩
  rw [hleft] at few ⊢
  rw [hright]
  dsimp only at few ⊢
  rw [checks same] at few ⊢
  cases hcheck : check table' with
  | error error => exact ⟨⟨abreast.peers, abreast.face⟩, .failed _⟩
  | ok passed =>
    rw [hcheck] at few
    dsimp only at few ⊢
    rcases abreast.enter with ⟨error, henter, henter'⟩ | ⟨after, after', asking, asking', txn, txn',
      henter, henter', peers, face, htables, htables', hdoomed, running⟩
    · rw [henter, henter']
      exact ⟨⟨abreast.peers, abreast.face⟩, .failed _⟩
    · rw [henter] at few ⊢
      rw [henter']
      dsimp only at few ⊢
      rw [← hdoomed]
      cases hdead : txn.doomed with
      | true => exact ⟨⟨peers, face⟩, .done (.same _)⟩
      | false =>
        rw [hdead, if_neg Bool.false_ne_true] at few
        rw [if_neg Bool.false_ne_true, if_neg Bool.false_ne_true]
        obtain ⟨⟨w, w', c', twins, hw, hw'⟩, htxn⟩ := running few
        have tried := tries twins (by rw [htables]; exact hleft) (by rw [htables']; exact hright) same
          hw hw' htxn
        have hremember : ∀ writes writes', (asking.remember tid writes).face =
            (asking'.remember tid writes').face := by
          intro writes writes'
          rw [Session.face_remember, Session.face_remember, face]
        have outcome := tried.outcome
        refine ⟨⟨peers.setTable tid tried.outline, ?_⟩, outcome⟩
        dsimp only
        generalize (attempt table after.ledger txn).outcome = left at outcome
        generalize (attempt table' after'.ledger txn').outcome = right at outcome
        cases outcome with
        | failed error => exact hremember _ _
        | done alike =>
          cases alike with
          | written => exact hremember _ _
          | same =>
            rename_i result
            cases result with
            | conflict => exact Session.face_doom face
            | _ => exact hremember _ _

theorem insert {tid : TableId} {record : Record}
    (few : (a.insert session tid record).1.ledger.lastId < 2 ^ 40) :
    Parallel (a.insert session tid record) (b.insert session' tid record) ∧
      Agree WriteOutcome.Alike (a.insert session tid record).2.2
        (b.insert session' tid record).2.2 :=
  abreast.write (checkRecord_of_outline record)
    (fun twins here here' same _ _ face => twins.insertRow here here' same face record) few

theorem update {tid : TableId} {row : RowHandle} {record : Record}
    (few : (a.update session tid row record).1.ledger.lastId < 2 ^ 40) :
    Parallel (a.update session tid row record) (b.update session' tid row record) ∧
      Agree WriteOutcome.Alike (a.update session tid row record).2.2
        (b.update session' tid row record).2.2 :=
  abreast.write (checkRecord_of_outline record)
    (fun twins here here' same running running' face =>
      twins.updateRow here here' same running running' face row record) few

theorem delete {tid : TableId} {row : RowHandle}
    (few : (a.delete session tid row).1.ledger.lastId < 2 ^ 40) :
    Parallel (a.delete session tid row) (b.delete session' tid row) ∧
      Agree WriteOutcome.Alike (a.delete session tid row).2.2 (b.delete session' tid row).2.2 :=
  abreast.write (fun _ => rfl)
    (fun twins here here' same running running' face =>
      twins.deleteRow here here' same running running' face row) few

/-! ## 2. Reads of an index -/

theorem lookup {tid : TableId} {i : Nat} {key : Bytes} {own : Bool}
    (few : (a.lookup session tid i key own).1.ledger.lastId < 2 ^ 40) :
    Parallel (a.lookup session tid i key own) (b.lookup session' tid i key own) ∧
      Agree Finding.Alike (a.lookup session tid i key own).2.2
        (b.lookup session' tid i key own).2.2 := by
  rw [Store.lookup] at few ⊢
  rw [Store.lookup]
  rcases abreast.peers.indexFor tid i key with ⟨error, hleft, hright⟩ | ⟨table, table', index,
    index', hleft, hright, here, here', hindex, hindex', hspec, short, hlimit⟩
  · rw [hleft, hright]
    exact ⟨⟨abreast.peers, abreast.face⟩, .failed _⟩
  rw [hleft] at few ⊢
  rw [hright]
  dsimp only at few ⊢
  rcases abreast.enter with ⟨error, henter, henter'⟩ | ⟨after, after', asking, asking', txn, txn',
    henter, henter', peers, face, htables, htables', hdoomed, running⟩
  · rw [henter, henter']
    exact ⟨⟨abreast.peers, abreast.face⟩, .failed _⟩
  rw [henter] at few ⊢
  rw [henter']
  dsimp only at few ⊢
  rw [← hdoomed]
  cases hdead : txn.doomed with
  | true => exact ⟨⟨peers, face⟩, .done (.same _)⟩
  | false =>
    rw [hdead, if_neg Bool.false_ne_true] at few
    rw [if_neg Bool.false_ne_true, if_neg Bool.false_ne_true]
    refine ⟨⟨peers, face⟩, ?_⟩
    obtain ⟨⟨w, w', c', twins, hw, hw'⟩, htxn⟩ := running few
    rw [← htables] at here
    rw [← htables'] at here'
    have hview := Transaction.view_of_face htxn own
    obtain ⟨found?, hfound, hforemost⟩ :=
      Table.lookupRow_spec ((twins.ok.tables here).indexes hindex) (twins.viewing hw own) short
    obtain ⟨found?', hfound', hforemost'⟩ :=
      Table.lookupRow_spec ((twins.ok'.tables here').indexes hindex')
        (twins.viewing' hw' htxn own) (hlimit.symm ▸ short)
    dsimp only
    rw [← hview, hfound, hfound']
    rw [hspec] at hforemost'
    have hfirst : table.First after.ledger (txn.view own) index.spec .range
        (fun entry => Key.encode key <+: Key.entry entry.1 entry.2) found? :=
      hforemost.first fun _ _ => Iff.rfl
    exact .done ((twins.sight here here' hw hw' htxn own).first hfirst
      (hforemost'.first fun _ _ => Iff.rfl))

theorem openScan {tid : TableId} {kind : ScanKind} {i : Nat} {start : Bytes}
    {inclusive own : Bool}
    (few : (a.openScan session tid kind i start inclusive own).1.ledger.lastId < 2 ^ 40) :
    Parallel (a.openScan session tid kind i start inclusive own)
        (b.openScan session' tid kind i start inclusive own) ∧
      Agree (fun opened opened' => opened.1.kind = opened'.1.kind ∧ opened.2.Alike opened'.2)
        (a.openScan session tid kind i start inclusive own).2.2
        (b.openScan session' tid kind i start inclusive own).2.2 := by
  rw [Store.openScan] at few ⊢
  rw [Store.openScan]
  rcases abreast.peers.indexFor tid i start with ⟨error, hleft, hright⟩ | ⟨table, table', index,
    index', hleft, hright, here, here', hindex, hindex', hspec, _, _⟩
  · rw [hleft, hright]
    exact ⟨⟨abreast.peers, abreast.face⟩, .failed _⟩
  rw [hleft] at few ⊢
  rw [hright]
  dsimp only at few ⊢
  rcases abreast.enter with ⟨error, henter, henter'⟩ | ⟨after, after', asking, asking', txn, txn',
    henter, henter', peers, face, htables, htables', hdoomed, running⟩
  · rw [henter, henter']
    exact ⟨⟨abreast.peers, abreast.face⟩, .failed _⟩
  rw [henter] at few ⊢
  rw [henter']
  dsimp only at few ⊢
  rw [← hdoomed]
  cases hdead : txn.doomed with
  | true => exact ⟨⟨peers, face⟩, .done ⟨rfl, .same _⟩⟩
  | false =>
    rw [hdead, if_neg Bool.false_ne_true] at few
    rw [if_neg Bool.false_ne_true, if_neg Bool.false_ne_true]
    refine ⟨⟨peers, face⟩, ?_⟩
    obtain ⟨⟨w, w', c', twins, hw, hw'⟩, htxn⟩ := running few
    rw [← htables] at here
    rw [← htables'] at here'
    obtain ⟨found?, hfound, hfirst, _⟩ := IndexScan.advance_cursor_spec
      ((twins.ok.tables here).indexes hindex) (twins.viewing hw own) tid i kind start inclusive _ rfl
    obtain ⟨found?', hfound', hfirst', _⟩ := IndexScan.advance_cursor_spec
      ((twins.ok'.tables here').indexes hindex') (twins.viewing' hw' htxn own) tid i kind start
      inclusive _ rfl
    have hkind := (IndexScan.advance_rest index table after.ledger (txn.view own)
      ⟨tid, i, kind, kind.cursor index.trie start inclusive, true, false⟩).2.2
    have hkind' := (IndexScan.advance_rest index' table' after'.ledger (txn.view own)
      ⟨tid, i, kind, kind.cursor index'.trie start inclusive, true, false⟩).2.2
    dsimp only
    rw [advanceScan_eq after txn own here here hindex,
      advanceScan_eq after' txn' own here' here' hindex', ← Transaction.view_of_face htxn own]
    dsimp only
    rw [hfound, hfound']
    rw [hspec] at hfirst'
    exact .done ⟨hkind.trans hkind'.symm,
      (twins.sight here here' hw hw' htxn own).first hfirst hfirst'⟩

/-- Going on with a scan leaves peers, wherever it rests. -/
theorem nextInScan {scan scan' : IndexScan} (same : scan.kind = scan'.kind) (tid : TableId)
    (kind : ScanKind) (own : Bool) :
    Parallel (a.nextInScan session tid kind scan own).2
      (b.nextInScan session' tid kind scan' own).2 := by
  rw [Store.nextInScan, Store.nextInScan, same]
  by_cases hkind : scan'.kind ≠ kind
  · rw [if_pos hkind, if_pos hkind]
    exact ⟨abreast.peers, abreast.face⟩
  rw [if_neg hkind, if_neg hkind]
  rcases abreast.enter with ⟨error, henter, henter'⟩ | ⟨after, after', asking, asking', txn, txn',
    henter, henter', peers, face, _⟩
  · rw [henter, henter']
    exact ⟨abreast.peers, abreast.face⟩
  · rw [henter, henter']
    dsimp only
    split <;> split <;> exact ⟨peers, face⟩

/-- Asked to go on with scans that have returned the same row last, both answer alike. -/
theorem nextInScan_alike {scan scan' : IndexScan} {course course' : ScanCourse}
    (fits : course.Fits a scan) (fits' : course'.Fits b scan') (alike : course.Alike course')
    {kind : ScanKind} {own : Bool}
    (few : (a.nextInScan session course.table kind scan own).2.1.ledger.lastId < 2 ^ 40) :
    Agree Finding.Alike (a.nextInScan session course.table kind scan own).2.2.2
      (b.nextInScan session' course.table kind scan' own).2.2.2 := by
  have hsame : scan.kind = scan'.kind := by rw [fits.kind, fits'.kind, alike.kind]
  rw [Store.nextInScan] at few ⊢
  rw [Store.nextInScan, ← hsame]
  by_cases hkind : scan.kind ≠ kind
  · rw [if_pos hkind, if_pos hkind]
    exact .failed _
  rw [if_neg hkind] at few ⊢
  rw [if_neg hkind]
  rcases abreast.enter with ⟨error, henter, henter'⟩ | ⟨after, after', asking, asking', txn, txn',
    henter, henter', peers, face, htables, htables', hdoomed, running⟩
  · rw [henter, henter']
    exact .failed _
  rw [henter] at few ⊢
  rw [henter']
  dsimp only at few ⊢
  rw [← hdoomed]
  cases hdead : txn.doomed with
  | true => exact .done (.same _)
  | false =>
    rw [hdead, if_neg Bool.false_ne_true] at few
    rw [if_neg Bool.false_ne_true, if_neg Bool.false_ne_true]
    exact (running few).advanceScan peers (fits.mono (.of_tables htables))
      (fits'.mono (.of_tables htables')) alike own

end Abreast
end Store
end SnapshotStore
