import Mathlib
import SnapshotStore.Proofs.Service.IndexScans
import SnapshotStore.Proofs.Twins.Writes

/-!
# Reading from twins

A transaction that runs in two stores with one history reads the same record of every row in both
(`Table.SameSight`). Which rows are there for it, and which of them a search comes to first, is then the
same as well, whatever entries are left over in one of the two (`SameSight.first`). A scan that rests in
both on the row that it returned last goes on to the same row.
-/

namespace SnapshotStore

/-- What came of looking for a row is the same, but for the version that was found. -/
inductive Store.Finding.Alike : Store.Finding → Store.Finding → Prop
  | same (finding : Store.Finding) : Alike finding finding
  | row {ref ref' : Table.RowRef} (h : ref.SameRow ref') : Alike (.row ref) (.row ref')

namespace Table

/-- The view reads the same record of each row in both. -/
def SameSight (view : View) (l : Ledger) (table : Table) (l' : Ledger) (table' : Table) : Prop :=
  ∀ row, (Chain.read l view (table.chainOf row)).record? =
    (Chain.read l' view (table'.chainOf row)).record?

namespace SameSight

variable {view : View} {l l' : Ledger} {table table' : Table} {spec : KeySpec}

theorem symm (sight : SameSight view l table l' table') : SameSight view l' table' l table :=
  fun row => (sight row).symm

/-- What is visible in one is visible in the other. -/
theorem visible (sight : SameSight view l table l' table') {key : Bytes} {ref : RowRef}
    (h : table.Visible l view spec key ref) :
    ∃ ref', table'.Visible l' view spec key ref' ∧ ref.SameRow ref' := by
  have hread := sight ref.handle
  rw [h.read] at hread
  cases hreading : Chain.read l' view (table'.chainOf ref.handle) with
  | visible version older =>
    rw [hreading] at hread
    have hrecord : version.record = ref.record := (Option.some.inj hread).symm
    refine ⟨⟨ref.handle, version, older⟩, ⟨hreading, ?_⟩, ⟨rfl, hrecord.symm⟩⟩
    rw [RowRef.record, hrecord]
    exact h.keyed
  | deleted | invisible =>
    rw [hreading] at hread
    cases hread

/-- The first row of a range is the same. -/
theorem first (sight : SameSight view l table l' table') {kind : ScanKind}
    {among : Bytes × RowHandle → Prop} {found? found?' : Option RowRef}
    (h : table.First l view spec kind among found?)
    (h' : table'.First l' view spec kind among found?') :
    Store.Finding.Alike (.ofOption found?) (.ofOption found?') := by
  cases found? with
  | none =>
    cases found?' with
    | none => exact .same _
    | some found' =>
      obtain ⟨key, hvisible, hin, _⟩ := h'
      obtain ⟨ref, hthere, hrow⟩ := sight.symm.visible hvisible
      rw [hrow.handle] at hin
      exact absurd hin (h key ref hthere)
  | some found =>
    obtain ⟨key, hvisible, hin, hfirst⟩ := h
    obtain ⟨ref', hthere', hrow⟩ := sight.visible hvisible
    cases found?' with
    | none =>
      rw [hrow.handle] at hin
      exact absurd hin (h' key ref' hthere')
    | some found' =>
      obtain ⟨key', hvisible', hin', hfirst'⟩ := h'
      obtain ⟨ref, hthere, hrow'⟩ := sight.symm.visible hvisible'
      refine .row ?_
      rcases hfirst' key ref' hthere' (by rw [← hrow.handle]; exact hin) with heq | hlater
      · rw [← heq]
        exact hrow
      · rcases hfirst key' ref hthere (by rw [← hrow'.handle]; exact hin') with heq | hearlier
        · rw [← heq]
          exact ⟨hrow'.handle.symm, hrow'.record.symm⟩
        · -- Neither of the two can come before the other.
          rw [ScanKind.precedes_iff] at hlater hearlier
          rw [hrow.handle, ← hrow'.handle] at hearlier
          exact absurd hearlier hlater.asymm

end SameSight
end Table

namespace Transaction

variable {txn txn' : Transaction}

theorem view_of_face (face : txn.face = txn'.face) (own : Bool) : txn.view own = txn'.view own := by
  obtain ⟨hid, hsnapshot, hstatement, _⟩ := face_eq_iff.mp face
  rw [view, view, hid, hsnapshot, hstatement]

end Transaction

namespace Store.Twins

variable {a b : Store} {work work' : Work} {c : Chronicle} (twins : Twins a work b work' c)
  {tid : TableId} {table table' : Table} (here : a.tables[tid]? = some table)
  (here' : b.tables[tid]? = some table') {txn txn' : Transaction}
  (running : work txn.id = some txn) (running' : work' txn'.id = some txn')
  (face : txn.face = txn'.face)
include twins here here' running running' face

theorem sight (own : Bool) :
    Table.SameSight (txn.view own) a.ledger table b.ledger table' := by
  intro row
  have hview := Transaction.view_of_face face own
  rw [twins.read_eq here here' running running' hview.symm row, hview]

omit here here' running' face in
theorem viewing (own : Bool) : Chain.Viewing a.ledger (txn.view own) := by
  have hactive := twins.ok.runs.running running
  exact ⟨Ledger.not_isCommitted_of_active twins.ok.ledger hactive,
    Ledger.horizon_le_snapshot hactive⟩

omit here here' running in
theorem viewing' (own : Bool) : Chain.Viewing b.ledger (txn.view own) := by
  have hactive := twins.ok'.runs.running running'
  rw [Transaction.view_of_face face own]
  exact ⟨Ledger.not_isCommitted_of_active twins.ok'.ledger hactive,
    Ledger.horizon_le_snapshot hactive⟩

end Store.Twins

/-! ## Scans in two stores -/

namespace ScanCourse

/-- Two scans run over the same range and have returned the same row last. -/
structure Alike (course course' : ScanCourse) : Prop where
  table : course.table = course'.table
  index : course.index = course'.index
  kind : course.kind = course'.kind
  start : course.start = course'.start
  inclusive : course.inclusive = course'.inclusive
  last : Store.Finding.Alike (.ofOption course.last?) (.ofOption course'.last?)

variable {course course' : ScanCourse}

theorem Alike.refl (course : ScanCourse) : course.Alike course := ⟨rfl, rfl, rfl, rfl, rfl, .same _⟩

/-- Both have reported their end, or have returned the same row. -/
theorem Alike.last_cases (alike : course.Alike course') :
    (course.last? = none ∧ course'.last? = none) ∨
    ∃ last last', course.last? = some last ∧ course'.last? = some last' ∧ last.SameRow last' := by
  have hlast := alike.last
  cases hleft : course.last? with
  | none =>
    cases hright : course'.last? with
    | none => exact Or.inl ⟨rfl, rfl⟩
    | some last' =>
      rw [hleft, hright] at hlast
      cases hlast
  | some last =>
    cases hright : course'.last? with
    | none =>
      rw [hleft, hright] at hlast
      cases hlast
    | some last' =>
      refine Or.inr ⟨last, last', rfl, rfl, ?_⟩
      rw [hleft, hright] at hlast
      cases hlast with
      | same => exact ⟨rfl, rfl⟩
      | row h => exact h

end ScanCourse
end SnapshotStore
