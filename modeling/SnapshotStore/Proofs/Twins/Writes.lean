import Mathlib
import SnapshotStore.Proofs.History.Twins
import SnapshotStore.Proofs.Table.Verdict
import SnapshotStore.Proofs.Twins.Peers

/-!
# Writing to twins

Two stores with one history whose tables have one outline answer a write alike (`Twins.insertRow`,
`Twins.updateRow`, `Twins.deleteRow`). A conflict is settled by whether the newest version may be written
over, a refusal by who owns which key, and both come out the same however much history the chains have
lost; the number of a new row is part of the outline. What the write returns is a version on a chain,
of which only the row and the record are the same in both (`RowRef.SameRow`).
-/

namespace SnapshotStore

/-- The row and its record are the same; the versions need not be. -/
structure Table.RowRef.SameRow (ref ref' : RowRef) : Prop where
  handle : ref.handle = ref'.handle
  record : ref.record = ref'.record

/-- What came of a write is the same, but for the version written. -/
inductive WriteOutcome.Alike : WriteOutcome → WriteOutcome → Prop
  | same (outcome : WriteOutcome) : Alike outcome outcome
  | written {ref ref' : Table.RowRef} (h : ref.SameRow ref') : Alike (.written ref) (.written ref')

namespace Table

/-- What came of two tries is the same, and leaves one outline. -/
structure Attempt.Alike (tried tried' : Attempt) : Prop where
  outline : tried.table.outline = tried'.table.outline
  outcome : Store.Agree WriteOutcome.Alike tried.outcome tried'.outcome

/-- The indexes settle what comes of a new version. -/
theorem agree_of_verdict {verdict verdict' : Option Refusal} (same : verdict = verdict')
    {ref ref' : RowRef} (row : ref.SameRow ref') {outcome outcome' : Except Error WriteOutcome}
    (h : (∃ refusal, verdict = some refusal ∧ outcome = refusal.outcome) ∨
      verdict = none ∧ outcome = .ok (.written ref))
    (h' : (∃ refusal, verdict' = some refusal ∧ outcome' = refusal.outcome) ∨
      verdict' = none ∧ outcome' = .ok (.written ref')) :
    Store.Agree WriteOutcome.Alike outcome outcome' := by
  subst same
  rcases h with ⟨refusal, hrefused, rfl⟩ | ⟨hdone, rfl⟩
  · rcases h' with ⟨refusal', hrefused', rfl⟩ | ⟨hdone, _⟩
    · cases hrefused.symm.trans hrefused'
      cases refusal with
      | taken index => exact .done (.same _)
      | failed error => exact .failed error
    · cases hrefused.symm.trans hdone
  · rcases h' with ⟨refusal, hrefused, _⟩ | ⟨_, rfl⟩
    · cases hrefused.symm.trans hdone
    · exact .done (.written row)

end Table

namespace Store.Twins

variable {a b : Store} {work work' : Work} {c : Chronicle} (twins : Twins a work b work' c)
  {tid : TableId} {table table' : Table} (here : a.tables[tid]? = some table)
  (here' : b.tables[tid]? = some table') (same : table.outline = table'.outline)
  {txn txn' : Transaction} (running : work txn.id = some txn) (running' : work' txn'.id = some txn')
  (face : txn.face = txn'.face)

include twins here here' in
/-- While a row is being written, the other rows leave the same keys free in both. -/
theorem free_iff {begun begun' : Table} {row : RowHandle} {id id' : Int} (hid : id = id')
    (hrows : ∀ other, other ≠ row → begun.chainOf other = table.chainOf other)
    (hrows' : ∀ other, other ≠ row → begun'.chainOf other = table'.chainOf other) (spec : KeySpec)
    (key : Bytes) : Table.Free a.ledger id spec key row begun ↔
      Table.Free b.ledger id' spec key row begun' := by
  subst hid
  refine forall_congr' fun other => forall_congr' fun hne => not_congr ?_
  rw [hrows other hne, hrows' other hne]
  exact twins.owns_iff here here' spec id key other

include twins here here' running running' face in
/-- A row is there to be written over in both or in neither. -/
theorem writable_iff (row : RowHandle) :
    (∃ newest older, table.chainOf row = newest :: older ∧
        newest.isWritable a.ledger txn.id txn.snapshot = true) ↔
      ∃ newest older, table'.chainOf row = newest :: older ∧
        newest.isWritable b.ledger txn'.id txn'.snapshot = true := by
  obtain ⟨hid, hsnapshot, _⟩ := Transaction.face_eq_iff.mp face
  have active := twins.ok.runs.running running
  have active' := twins.ok'.runs.running running'
  have heq := twins.isWritable_eq here here' active (by rw [hid, hsnapshot]; exact active') row
  have hfold : ∀ {l : Ledger} {id snapshot : Int} {chain : Chain},
      (∃ newest older, chain = newest :: older ∧ newest.isWritable l id snapshot = true) ↔
        chain.isWritable l id snapshot = true := by
    intro l id snapshot chain
    cases chain with
    | nil => simp [Chain.isWritable]
    | cons newest older => simp
  rw [hfold, hfold, heq, hid, hsnapshot]

include twins here here' same face in
/-- An insert comes out the same. -/
theorem insertRow (record : Record) :
    (table.insertRow a.ledger txn record).Alike (table'.insertRow b.ledger txn' record) := by
  have ok := twins.ok.tables here
  have ok' := twins.ok'.tables here'
  have hid := (Transaction.face_eq_iff.mp face).1
  refine ⟨by rw [Table.outline_insertRow, Table.outline_insertRow, same], ?_⟩
  have hhandle : table.nextHandle = table'.nextHandle := congrArg Table.Outline.nextHandle same
  rcases ok.insertRow_spec txn record with ⟨hnone, heq⟩ | ⟨row, hrow, hcases⟩
  · rcases ok'.insertRow_spec txn' record with ⟨_, heq'⟩ | ⟨row', hrow', _⟩
    · rw [heq, heq']
      exact .failed _
    · rw [hhandle, hrow'] at hnone
      cases hnone
  rcases ok'.insertRow_spec txn' record with ⟨hnone', _⟩ | ⟨row', hrow', hcases'⟩
  · rw [hhandle, hnone'] at hrow
    cases hrow
  rw [hhandle, hrow'] at hrow
  cases hrow
  have hother : ∀ (t : Table) (txn : Transaction) (other : RowHandle), other ≠ row →
      (t.begunInsert txn record row).rows[other]? = t.rows[other]? := by
    intro t txn other hne
    rw [Table.rows_begunInsert, if_neg hne]
  have hchain : ∀ (t : Table) (txn : Transaction) (other : RowHandle), other ≠ row →
      (t.begunInsert txn record row).chainOf other = t.chainOf other := by
    intro t txn other hne
    rw [Table.chainOf, hother t txn other hne, Table.chainOf]
  have hbegun : (table'.begunInsert txn' record row).outline =
      (table.begunInsert txn record row).outline := by
    have hspecs : table'.outline = table.outline := same.symm
    rw [Table.outline, Table.outline, Table.Outline.mk.injEq] at hspecs ⊢
    obtain ⟨hname, hschema, hlimit, hnext, hspecs⟩ := hspecs
    exact ⟨hname, hschema, hlimit, congrArg (· + 1) hnext, hspecs⟩
  have hverdict : (table.begunInsert txn record row).verdict
        (Table.bindRecord a.ledger txn.id record row) =
      (table'.begunInsert txn' record row).verdict (Table.bindRecord b.ledger txn'.id record row) := by
    rw [← hid]
    exact Table.verdict_bindRecord hbegun
      (fun spec key => twins.free_iff here here' rfl (hchain table txn) (hchain table' txn') spec key)
      (fun hindex => ok.answers_begun (table.begunInsert txn record row) rfl rfl (hother table txn) hindex)
      (fun hindex => ok'.answers_begun (table'.begunInsert txn' record row) rfl rfl
        (hother table' txn') hindex)
  have hrow : Table.RowRef.SameRow ⟨row, table.newVersion txn record, []⟩
      ⟨row, table'.newVersion txn' record, []⟩ := ⟨rfl, rfl⟩
  exact Table.agree_of_verdict hverdict hrow
    (hcases.imp (fun h => h.imp fun _ h => ⟨h.1, h.2.1⟩) fun h => ⟨h.1, h.2.1⟩)
    (hcases'.imp (fun h => h.imp fun _ h => ⟨h.1, h.2.1⟩) fun h => ⟨h.1, h.2.1⟩)

include twins here here' same running running' face in
/-- An update comes out the same. -/
theorem updateRow (row : RowHandle) (record : Record) :
    (table.updateRow a.ledger txn row record).Alike (table'.updateRow b.ledger txn' row record) := by
  have ok := twins.ok.tables here
  have ok' := twins.ok'.tables here'
  have hid := (Transaction.face_eq_iff.mp face).1
  have hwritable := twins.writable_iff here here' running running' face row
  refine ⟨by rw [Table.outline_updateRow, Table.outline_updateRow, same], ?_⟩
  rcases ok.updateRow_spec txn row record with ⟨hnot, heq⟩ | ⟨newest, older, hold, hover, hcases⟩
  · rcases ok'.updateRow_spec txn' row record with ⟨_, heq'⟩ | ⟨newest', older', hold', hover', _⟩
    · rw [heq, heq']
      exact .done (.same _)
    · obtain ⟨newest, older, hold, hover⟩ := hwritable.mpr ⟨newest', older', hold', hover'⟩
      rw [hnot newest older hold] at hover
      cases hover
  rcases ok'.updateRow_spec txn' row record with ⟨hnot', _⟩ | ⟨newest', older', hold', _, hcases'⟩
  · obtain ⟨newest', older', hold', hover'⟩ := hwritable.mp ⟨newest, older, hold, hover⟩
    rw [hnot' newest' older' hold'] at hover'
    cases hover'
  have hrecord : newest.record = newest'.record := twins.record_newest here here' hold hold'
  have hother : ∀ (t : Table) (txn : Transaction) (other : RowHandle), other ≠ row →
      (t.begunUpdate txn record row).rows[other]? = t.rows[other]? := by
    intro t txn other hne
    rw [Table.rows_begunUpdate, if_neg hne]
  have hchain : ∀ (t : Table) (txn : Transaction) (other : RowHandle), other ≠ row →
      (t.begunUpdate txn record row).chainOf other = t.chainOf other := by
    intro t txn other hne
    rw [Table.chainOf, hother t txn other hne, Table.chainOf]
  have hbegun : (table'.begunUpdate txn' record row).outline =
      (table.begunUpdate txn record row).outline := same.symm
  have hverdict : (table.begunUpdate txn record row).verdict
        (Table.rebindRecord a.ledger txn.id newest.record record row) =
      (table'.begunUpdate txn' record row).verdict
        (Table.rebindRecord b.ledger txn'.id newest'.record record row) := by
    rw [← hid, ← hrecord]
    exact Table.verdict_rebindRecord hbegun
      (fun spec key => twins.free_iff here here' rfl (hchain table txn) (hchain table' txn') spec key)
      (fun hindex => ok.answers_begun (table.begunUpdate txn record row) rfl rfl (hother table txn) hindex)
      (fun hindex => ok'.answers_begun (table'.begunUpdate txn' record row) rfl rfl
        (hother table' txn') hindex)
  have hrow : Table.RowRef.SameRow ⟨row, table.newVersion txn record, newest :: older⟩
      ⟨row, table'.newVersion txn' record, newest' :: older'⟩ := ⟨rfl, rfl⟩
  exact Table.agree_of_verdict hverdict hrow
    (hcases.imp (fun h => h.imp fun _ h => ⟨h.1, h.2.1⟩) fun h => ⟨h.1, h.2.1⟩)
    (hcases'.imp (fun h => h.imp fun _ h => ⟨h.1, h.2.1⟩) fun h => ⟨h.1, h.2.1⟩)

include twins here here' same running running' face in
/-- A deletion comes out the same. -/
theorem deleteRow (row : RowHandle) :
    (table.deleteRow a.ledger txn row).Alike (table'.deleteRow b.ledger txn' row) := by
  have hwritable := twins.writable_iff here here' running running' face row
  refine ⟨by rw [Table.outline_deleteRow, Table.outline_deleteRow, same], ?_⟩
  rcases (twins.ok.tables here).deleteRow_spec txn row with
    ⟨hnot, heq⟩ | ⟨newest, older, hold, hover, heq⟩
  · rcases (twins.ok'.tables here').deleteRow_spec txn' row with
      ⟨_, heq'⟩ | ⟨newest', older', hold', hover', _⟩
    · rw [heq, heq']
      exact .done (.same _)
    · obtain ⟨newest, older, hold, hover⟩ := hwritable.mpr ⟨newest', older', hold', hover'⟩
      rw [hnot newest older hold] at hover
      cases hover
  · rcases (twins.ok'.tables here').deleteRow_spec txn' row with ⟨hnot', _⟩ | ⟨_, _, _, _, heq'⟩
    · obtain ⟨newest', older', hold', hover'⟩ := hwritable.mp ⟨newest, older, hold, hover⟩
      rw [hnot' newest' older' hold'] at hover'
      cases hover'
    · rw [heq, heq']
      exact .done (.same _)

end Store.Twins
end SnapshotStore
