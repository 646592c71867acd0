import Mathlib
import SnapshotStore.Record
import SnapshotStore.Proofs.Fallible

/-!
# What a schema lets into a record

A row image is handed in from outside. Reading a field of it takes bytes from an address that was
computed when the schema was laid out, and how many of them it takes may be up to the image. Were an
address or a limit off by one, a field would show a byte of its neighbour or a reader would run off the
image, and only some schemas and some images would ever show it.

Two things keep that from happening. Laying out columns puts the regions of the fields one after
another, from the first byte that belongs to a field to the end of the row, as long as the addresses do
not wrap around (`Schema.placeColumns_spec`). And a count is accepted only up to the room behind it, so
what a field shows stays within its region whatever the image says (`Field.data_shows`).

The functions that read take of an image what is there, so they cannot tell that something is missing.
Their twins with a question mark can: they give up as soon as one slice goes past the end. On a schema
that was laid out they never do (`Schema.legible_of_consecutive`), and so nothing that is read is cut
short.
-/

namespace SnapshotStore

open Fallible

/-! ## 1. Slices -/

/-- The number that the `width` bytes of an image from `start` are, the least significant first. -/
def Bytes.valueAt (image : Bytes) (start width : Nat) : Nat :=
  ∑ i ∈ Finset.range width, (image.getD (start + i) 0).toNat * 256 ^ i

namespace Field

/-- The `length` bytes of an image from `start`, if there are as many. -/
def slice? (image : Bytes) (start length : Nat) : Option Bytes :=
  if start + length ≤ image.length then some (slice image start length) else none

variable {image a b : Bytes} {start length : Nat}

theorem slice?_eq (h : start + length ≤ image.length) :
    slice? image start length = some (slice image start length) :=
  if_pos h

theorem length_slice (h : start + length ≤ image.length) : (slice image start length).length = length := by
  rw [slice, List.length_take, List.length_drop]
  omega

theorem slice_succ (image : Bytes) (start length : Nat) (h : start < image.length) :
    slice image start (length + 1) = image[start] :: slice image (start + 1) length := by
  rw [slice, List.drop_eq_getElem_cons h, List.take_succ_cons, slice]

/-- A slice depends on nothing but the bytes at its addresses. -/
theorem slice_congr (h : ∀ address, start ≤ address → address < start + length →
    a[address]? = b[address]?) : slice a start length = slice b start length := by
  refine List.ext_getElem? fun i => ?_
  rw [slice, slice, List.getElem?_take, List.getElem?_take, List.getElem?_drop, List.getElem?_drop]
  split
  · exact h (start + i) (Nat.le_add_right start i) (by omega)
  · rfl

end Field

namespace Bytes

theorem valueAt_succ (image : Bytes) (start width : Nat) :
    image.valueAt start (width + 1) =
      (image.getD start 0).toNat + 256 * image.valueAt (start + 1) width := by
  have hrest : ∑ i ∈ Finset.range width, (image.getD (start + (i + 1)) 0).toNat * 256 ^ (i + 1) =
      256 * image.valueAt (start + 1) width := by
    rw [valueAt, Finset.mul_sum]
    refine Finset.sum_congr rfl fun i _ => ?_
    rw [show start + (i + 1) = start + 1 + i by omega, pow_succ]
    ring
  rw [valueAt, Finset.sum_range_succ', hrest, pow_zero, Nat.mul_one, Nat.add_comm]
  rfl

/-- Behind the end of an image there are zeros. -/
theorem valueAt_of_le {image : Bytes} {start : Nat} (h : image.length ≤ start) (width : Nat) :
    image.valueAt start width = 0 := by
  refine Finset.sum_eq_zero fun i _ => ?_
  rw [List.getD_eq_default _ _ (by omega)]
  exact Nat.zero_mul _

theorem ofLittleEndian_slice (image : Bytes) (start width : Nat) :
    ofLittleEndian (Field.slice image start width) = image.valueAt start width := by
  induction width generalizing start with
  | zero => simp [Field.slice, ofLittleEndian, valueAt]
  | succ width ih =>
    by_cases h : start < image.length
    · rw [Field.slice_succ image start width h, ofLittleEndian, ih, valueAt_succ,
        List.getD_eq_getElem _ _ h]
    · have hend : image.length ≤ start := Nat.not_lt.mp h
      rw [Field.slice, List.drop_eq_nil_of_le hend, List.take_nil, valueAt_of_le hend,
        ofLittleEndian]

end Bytes

namespace Field

/-! ## 2. Fields -/

/-- The address lies in the region of the field. -/
def Covers (field : Field) (address : Nat) : Prop :=
  field.offset ≤ address ∧ address < field.offset + field.storage.size

/-- The field as a column that has not been placed. -/
def column (field : Field) : Column := ⟨field.name, field.storage⟩

/-- If the field is counted, its count has one byte or two. -/
def Countable (field : Field) : Prop :=
  ∀ counter max, field.storage = .counted counter max → counter = 1 ∨ counter = 2

/-- The image keeps to the limit of the field: the count in front of a counted field is no greater than
the room behind it. -/
def Accepts (field : Field) (image : Bytes) : Prop :=
  ∀ counter max, field.storage = .counted counter max → image.valueAt field.offset counter ≤ max

/-- The number that the bytes of a count are, if there are one or two of them. -/
def count? : Bytes → Option Nat
  | [low] => some low.toNat
  | [low, high] => some (low.toNat + 256 * high.toNat)
  | _ => none

/-- `data`, where every slice has to be there. -/
def data? (field : Field) (image : Bytes) : Option (Except Error Bytes) :=
  match field.storage with
  | .fixed size => (slice? image field.offset size).map .ok
  | .counted counter max => do
    let front ← slice? image field.offset counter
    let count ← count? front
    if count > max then return .error (.fieldTooLong field.name max count)
    let bytes ← slice? image (field.offset + counter) count
    return .ok bytes

/-- These bytes are what the image holds somewhere in the region of the field, and they are no more than
the field can be. -/
def Shows (field : Field) (image shown : Bytes) : Prop :=
  ∃ start, field.offset ≤ start ∧ start + shown.length ≤ field.offset + field.storage.size ∧
    shown.length ≤ field.storage.maxData ∧ slice? image start shown.length = some shown

variable {field : Field}

theorem count?_of_length {front : Bytes} (h : front.length = 1 ∨ front.length = 2) :
    count? front = some (Bytes.ofLittleEndian front) := by
  match front, h with
  | [low], _ => simp [count?, Bytes.ofLittleEndian]
  | [low, high], _ => simp [count?, Bytes.ofLittleEndian]

/-- What is read of a field is there if its region is. -/
theorem data?_eq (countable : field.Countable)
    (within : field.offset + field.storage.size ≤ image.length) :
    field.data? image = some (field.data image) := by
  rw [data?, data]
  cases hstorage : field.storage with
  | fixed size =>
    rw [hstorage, Storage.size] at within
    dsimp only
    rw [slice?_eq within, Option.map_some]
  | counted counter max =>
    rw [hstorage, Storage.size] at within
    have hfront : field.offset + counter ≤ image.length := by omega
    have hcounter := countable counter max hstorage
    rw [← length_slice hfront] at hcounter
    simp only [slice?_eq hfront, count?_of_length hcounter, Option.bind_eq_bind, Option.bind_some]
    split
    · rfl
    · rw [slice?_eq (by omega)]
      rfl

theorem exists_data_iff : (∃ shown, field.data image = .ok shown) ↔ field.Accepts image := by
  rw [data, Accepts]
  cases hstorage : field.storage with
  | fixed size => simp
  | counted counter max =>
    dsimp only
    rw [Bytes.ofLittleEndian_slice]
    constructor
    · rintro ⟨shown, hshown⟩ counter' max' heq
      cases heq
      split at hshown
      · cases hshown
      · omega
    · intro haccepts
      have hcount := haccepts counter max rfl
      exact ⟨_, if_neg (by omega)⟩

/-- What is read of a field lies within its region. -/
theorem data_shows {shown : Bytes} (within : field.offset + field.storage.size ≤ image.length)
    (h : field.data image = .ok shown) : field.Shows image shown := by
  have accepts := exists_data_iff.mp ⟨shown, h⟩
  rw [data] at h
  rw [Shows]
  cases hstorage : field.storage with
  | fixed size =>
    rw [hstorage] at h
    rw [hstorage, Storage.size] at within
    have hlength : shown.length = size := by
      rw [← Except.ok.inj h, length_slice within]
    rw [Storage.size, Storage.maxData, hlength]
    exact ⟨field.offset, le_refl _, le_refl _, le_refl _, by rw [slice?_eq within, Except.ok.inj h]⟩
  | counted counter max =>
    have hcount := accepts counter max hstorage
    rw [← Bytes.ofLittleEndian_slice] at hcount
    rw [hstorage] at h
    rw [hstorage, Storage.size] at within
    dsimp only at h
    rw [if_neg (by omega)] at h
    have hlength : shown.length = Bytes.ofLittleEndian (slice image field.offset counter) := by
      rw [← Except.ok.inj h, length_slice (by omega)]
    rw [← hlength] at hcount h
    refine ⟨field.offset + counter, by omega, ?_, hcount, ?_⟩
    · rw [Storage.size]
      omega
    · rw [slice?_eq (by omega), Except.ok.inj h]

/-- Images that agree on the region of a field, and keep to its limit, show the same of it. -/
theorem data_congr (agree : ∀ address, field.Covers address → a[address]? = b[address]?)
    (accepts : field.Accepts a) : field.data a = field.data b := by
  have hslice : ∀ {start length : Nat}, field.offset ≤ start →
      start + length ≤ field.offset + field.storage.size → slice a start length = slice b start length := by
    intro start length hfirst hlast
    exact slice_congr fun address hlow hhigh => agree address ⟨by omega, by omega⟩
  rw [data, data]
  cases hstorage : field.storage with
  | fixed size =>
    rw [hstorage, Storage.size] at hslice
    dsimp only
    rw [hslice (le_refl _) (le_refl _)]
  | counted counter max =>
    have hcount := accepts counter max hstorage
    rw [← Bytes.ofLittleEndian_slice] at hcount
    rw [hstorage, Storage.size] at hslice
    have hfront : slice a field.offset counter = slice b field.offset counter :=
      hslice (le_refl _) (by omega)
    have hbytes : slice a (field.offset + counter) (Bytes.ofLittleEndian (slice a field.offset counter)) =
        slice b (field.offset + counter) (Bytes.ofLittleEndian (slice a field.offset counter)) :=
      hslice (by omega) (by omega)
    dsimp only
    rw [← hfront, hbytes]

end Field

/-! ## 3. Laying out columns -/

theorem Column.countable_of_check {column : Column} (h : column.check = .ok ()) (offset : Nat) :
    (column.place offset).Countable := by
  intro counter max hstorage
  change column.storage = .counted counter max at hstorage
  rw [check, hstorage] at h
  match counter with
  | 0 => cases h
  | 1 => exact Or.inl rfl
  | 2 => exact Or.inr rfl
  | _ + 3 => cases h

namespace Schema

/-- The fields lie one after another from `start` to `stop`. -/
def Consecutive : Nat → List Field → Nat → Prop
  | start, [], stop => start = stop
  | start, field :: rest, stop =>
    field.offset = start ∧ Consecutive (start + field.storage.size) rest stop

/-- As long as the addresses do not wrap around, the columns are placed one after another. -/
theorem placeColumns_spec {columns : List Column} {offset stop : Nat} {taken : List String}
    {fields : List Field} (fits : offset + (columns.map (·.storage.size)).sum < addressLimit)
    (h : placeColumns offset taken columns = .ok (fields, stop)) :
    fields.map Field.column = columns ∧ Consecutive offset fields stop ∧
      ∀ field ∈ fields, field.Countable := by
  induction columns generalizing offset taken fields with
  | nil =>
    rw [placeColumns] at h
    cases h
    exact ⟨rfl, rfl, fun field hin => by cases hin⟩
  | cons column columns ih =>
    rw [List.map_cons, List.sum_cons] at fits
    have hstop : (column.place offset).stop = offset + column.storage.size :=
      Nat.mod_eq_of_lt (show offset + column.storage.size < addressLimit by omega)
    rw [placeColumns] at h
    obtain ⟨_, hcheck, h⟩ := bind_eq_ok.mp h
    dsimp only at h
    split at h
    · cases h
    rw [hstop] at h
    obtain ⟨⟨rest, last⟩, hrest, h⟩ := bind_eq_ok.mp h
    cases h
    obtain ⟨hcolumns, hconsecutive, hcountable⟩ := ih (by omega) hrest
    refine ⟨by rw [List.map_cons, hcolumns]; rfl, ⟨rfl, hconsecutive⟩, fun field hin => ?_⟩
    rcases List.mem_cons.mp hin with rfl | hin
    · exact Column.countable_of_check hcheck offset
    · exact hcountable field hin

namespace Consecutive

variable {start stop : Nat} {fields : List Field}

theorem le (h : Consecutive start fields stop) : start ≤ stop := by
  induction fields generalizing start with
  | nil => exact le_of_eq h
  | cons field fields ih => exact (Nat.le_add_right _ _).trans (ih h.2)

/-- Every region lies between the ends. -/
theorem within (h : Consecutive start fields stop) {field : Field} (hin : field ∈ fields) :
    start ≤ field.offset ∧ field.offset + field.storage.size ≤ stop := by
  induction fields generalizing start with
  | nil => cases hin
  | cons first fields ih =>
    obtain ⟨hoffset, hrest⟩ := h
    rcases List.mem_cons.mp hin with rfl | hin
    · exact ⟨hoffset.ge, hoffset ▸ hrest.le⟩
    · obtain ⟨hlow, hhigh⟩ := ih hrest hin
      exact ⟨(Nat.le_add_right _ _).trans hlow, hhigh⟩

/-- Every address between the ends lies in one region and in no other. -/
theorem existsUnique_covers (h : Consecutive start fields stop) {address : Nat} (low : start ≤ address)
    (high : address < stop) : ∃! i : Nat, ∃ field, fields[i]? = some field ∧ field.Covers address := by
  induction fields generalizing start with
  | nil =>
    have heq : start = stop := h
    omega
  | cons first fields ih =>
    obtain ⟨hoffset, hrest⟩ := h
    by_cases hfirst : address < start + first.storage.size
    · refine ⟨0, ⟨first, rfl, hoffset.le.trans low, by rwa [hoffset]⟩, ?_⟩
      rintro i ⟨field, hfield, hcovers⟩
      cases i with
      | zero => rfl
      | succ i =>
        -- Whatever comes later begins behind the first region.
        have hlater := (hrest.within (List.mem_of_getElem? hfield)).1
        have hstarts := hcovers.1
        omega
    · obtain ⟨i, ⟨field, hfield, hcovers⟩, honly⟩ := ih hrest (Nat.not_lt.mp hfirst)
      refine ⟨i + 1, ⟨field, hfield, hcovers⟩, ?_⟩
      rintro j ⟨other, hother, hcovers'⟩
      cases j with
      | zero =>
        cases hother
        exact absurd (hoffset ▸ hcovers'.2) hfirst
      | succ j => rw [honly j ⟨other, hother, hcovers'⟩]

end Consecutive

/-! ## 4. Checking images and reading records -/

/-- Reads all fields, where every slice has to be there. -/
def checkFields? (image : Bytes) : List Field → Option (Except Error Unit)
  | [] => some (.ok ())
  | field :: rest => do
    match ← field.data? image with
    | .error e => return .error e
    | .ok _ => checkFields? image rest

/-- `check`, where every slice has to be there. -/
def check? (schema : Schema) (image : Bytes) : Option (Except Error Unit) :=
  if image.length ≠ schema.rowLength then
    some (.error (.recordLengthMismatch schema.rowLength image.length))
  else checkFields? image schema.fields

end Schema

/-- `field`, where every slice has to be there. -/
def Record.field? (record : Record) (index : Nat) : Option (Except Error Bytes) :=
  match record.schema.field index with
  | .error e => some (.error e)
  | .ok field => field.data? record.bytes

namespace Schema

/-- The columns lie in a row one after another behind the first `nullBytes` bytes, and every byte
behind those belongs to one of them. -/
structure Tiles (schema : Schema) (nullBytes : Nat) (columns : List Column) : Prop where
  front : schema.nullBytes = nullBytes
  columns : schema.fields.map Field.column = columns
  consecutive : Consecutive nullBytes schema.fields schema.rowLength
  covers : ∀ field ∈ schema.fields, ∀ address, field.Covers address →
    nullBytes ≤ address ∧ address < schema.rowLength
  covered : ∀ address, nullBytes ≤ address → address < schema.rowLength →
    ∃! i : Nat, ∃ field, schema.fields[i]? = some field ∧ field.Covers address

/-- Checking and reading rows of the schema never miss a byte, and a field shows its own bytes only. -/
structure Legible (schema : Schema) : Prop where
  checked : ∀ image, schema.check? image = some (schema.check image)
  accepted : ∀ image, schema.check image = .ok () ↔
    image.length = schema.rowLength ∧ ∀ field ∈ schema.fields, field.Accepts image
  read : ∀ record : Record, record.schema = schema → ∀ i, record.field? i = some (record.field i)
  shown : ∀ record : Record, record.schema = schema → ∀ (i : Nat) (h : i < schema.fields.length),
    ∃ shown, record.field i = .ok shown ∧ schema.fields[i].Shows record.bytes shown
  local' : ∀ a b : Record, a.schema = schema → b.schema = schema →
    ∀ (i : Nat) (h : i < schema.fields.length),
      (∀ address, schema.fields[i].Covers address → a.bytes[address]? = b.bytes[address]?) →
        a.field i = b.field i

variable {schema : Schema} {image : Bytes}

theorem checkFields?_eq {fields : List Field}
    (h : ∀ field ∈ fields, field.data? image = some (field.data image)) :
    checkFields? image fields = some (fields.forM fun field => do let _ ← field.data image) := by
  induction fields with
  | nil => rfl
  | cons field fields ih =>
    rw [checkFields?, h field List.mem_cons_self, Option.bind_eq_bind, Option.bind_some, List.forM]
    cases field.data image with
    | error e => rfl
    | ok shown => exact ih fun other hin => h other (List.mem_cons_of_mem _ hin)

theorem forM_data_eq_ok {fields : List Field} :
    (fields.forM fun field => do let _ ← field.data image) = .ok () ↔
      ∀ field ∈ fields, field.Accepts image := by
  induction fields with
  | nil => simp
  | cons field fields ih =>
    rw [List.forM, List.forall_mem_cons, ← ih, ← Field.exists_data_iff]
    cases field.data image with
    | error e => simp
    | ok shown => simp

theorem check_eq_ok_iff : schema.check image = .ok () ↔
    image.length = schema.rowLength ∧ ∀ field ∈ schema.fields, field.Accepts image := by
  rw [check]
  split
  · rename_i hlength
    simp [hlength]
  · rename_i hlength
    rw [forM_data_eq_ok]
    simp [not_not.mp hlength]

theorem field_eq_getElem {i : Nat} (h : i < schema.fields.length) :
    schema.field i = .ok schema.fields[i] := by
  rw [field, List.getElem?_eq_getElem h]

/-- On a schema whose fields lie in its rows, nothing that is read is cut short. -/
theorem legible_of_consecutive {start : Nat}
    (consecutive : Consecutive start schema.fields schema.rowLength)
    (countable : ∀ field ∈ schema.fields, field.Countable) : schema.Legible := by
  have hdata : ∀ image : Bytes, image.length = schema.rowLength → ∀ field ∈ schema.fields,
      field.data? image = some (field.data image) := by
    intro image hlength field hin
    exact Field.data?_eq (countable field hin) (hlength ▸ (consecutive.within hin).2)
  have haccepted : ∀ record : Record, record.schema = schema →
      record.bytes.length = schema.rowLength ∧ ∀ field ∈ schema.fields, field.Accepts record.bytes := by
    rintro record rfl
    exact check_eq_ok_iff.mp record.accepted
  refine ⟨fun image => ?_, fun image => check_eq_ok_iff, ?_, ?_, ?_⟩
  · rw [check?, check]
    split
    · rfl
    · rename_i hlength
      exact checkFields?_eq (hdata image (not_not.mp hlength))
  · rintro record rfl i
    obtain ⟨hlength, _⟩ := haccepted record rfl
    rw [Record.field?, Record.field, field]
    cases hfield : record.schema.fields[i]? with
    | none => rfl
    | some field => exact hdata record.bytes hlength field (List.mem_of_getElem? hfield)
  · rintro record rfl i h
    obtain ⟨hlength, haccepts⟩ := haccepted record rfl
    have hin := List.getElem_mem h
    obtain ⟨shown, hshown⟩ := Field.exists_data_iff.mpr (haccepts _ hin)
    rw [Record.field, field_eq_getElem h, ok_bind]
    exact ⟨shown, hshown, Field.data_shows (hlength ▸ (consecutive.within hin).2) hshown⟩
  · rintro a b rfl hschema i h agree
    obtain ⟨_, haccepts⟩ := haccepted a rfl
    rw [Record.field, Record.field, hschema, field_eq_getElem h, ok_bind, ok_bind]
    exact Field.data_congr agree (haccepts _ (List.getElem_mem h))

/-- A schema that was laid out from columns whose whole length is an address tiles its rows with them,
and its rows are legible. -/
theorem tiles_and_legible_of_build {nullBytes : Nat} {columns : List Column}
    (built : build nullBytes columns = .ok schema)
    (fits : nullBytes + (columns.map (·.storage.size)).sum < addressLimit) :
    schema.Tiles nullBytes columns ∧ schema.Legible := by
  rw [build] at built
  split at built
  · cases built
  obtain ⟨⟨fields, stop⟩, hplaced, built⟩ := bind_eq_ok.mp built
  cases built
  obtain ⟨hcolumns, hconsecutive, hcountable⟩ := placeColumns_spec fits hplaced
  refine ⟨⟨rfl, hcolumns, hconsecutive, fun field hin address hcovers => ?_,
    fun address low high => hconsecutive.existsUnique_covers low high⟩,
    legible_of_consecutive hconsecutive hcountable⟩
  obtain ⟨hlow, hhigh⟩ := hconsecutive.within hin
  exact ⟨hlow.trans hcovers.1, hcovers.2.trans_le hhigh⟩

/-- A number, a name of at most ten bytes and a text of at most 300. -/
def letterColumns : List Column :=
  [⟨"id", .fixed 4⟩, ⟨"name", .counted 1 10⟩, ⟨"text", .counted 2 300⟩]

/-- The three columns behind a byte that belongs to none of them. -/
def letter : Schema :=
  ⟨1, [⟨"id", 1, .fixed 4⟩, ⟨"name", 5, .counted 1 10⟩, ⟨"text", 16, .counted 2 300⟩], 318⟩

theorem letter_legible : build 1 letterColumns = .ok letter ∧
    1 + (letterColumns.map (·.storage.size)).sum < addressLimit ∧
    letter.Tiles 1 letterColumns ∧ letter.Legible := by
  have built : build 1 letterColumns = .ok letter := by decide +kernel
  have fits : 1 + (letterColumns.map (·.storage.size)).sum < addressLimit := by decide
  exact ⟨built, fits, tiles_and_legible_of_build built fits⟩

end Schema
end SnapshotStore
