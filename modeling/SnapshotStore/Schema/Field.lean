import SnapshotStore.Bytes
import SnapshotStore.Error

/-!
# Fields of a row image

A row image is a byte string of fixed length in which every field has its own region. A field
either fills its region, or is counted: a one- or two-byte count comes first, and only that many
of the bytes after it mean anything. `Field.data` reads the meaningful bytes and is the one place
where a count that exceeds its limit is found out.
-/

namespace SnapshotStore

/-- The number of addresses of a row image; lengths beyond it wrap around. -/
def addressLimit : Nat := 0x10000000000000000

/-- How a field is kept in its region. -/
inductive Storage where
  /-- The field fills its region of `size` bytes. -/
  | fixed (size : Nat)
  /-- A little-endian count of `counter` bytes, then room for `max` bytes. -/
  | counted (counter max : Nat)
deriving DecidableEq, Inhabited

namespace Storage

/-- The length of the region. -/
def size : Storage → Nat
  | fixed size => size
  | counted counter max => counter + max

/-- The greatest number of meaningful bytes. -/
def maxData : Storage → Nat
  | fixed size => size
  | counted _ max => max

/-- The greatest count that a counter of that many bytes can hold; only one and two bytes are in
use. -/
def counterLimit? : Nat → Option Nat
  | 1 => some 255
  | 2 => some 65535
  | _ => none

end Storage

/-- A named field that has not been placed yet. -/
structure Column where
  name : String
  storage : Storage
deriving DecidableEq, Inhabited

/-- A field placed in the row image. -/
structure Field where
  name : String
  offset : Nat
  storage : Storage
deriving DecidableEq, Inhabited

namespace Column

/-- Refuses storage that can hold nothing or cannot count what it holds. -/
def check (column : Column) : Except Error Unit :=
  match column.storage with
  | .fixed 0 => .error (.invalidSchema s!"field '{column.name}' has zero width")
  | .fixed _ => .ok ()
  | .counted counter max =>
    match Storage.counterLimit? counter with
    | none =>
      .error (.invalidSchema s!"field '{column.name}' length prefix must be 1 or 2 bytes")
    | some limit =>
      if max > limit then
        .error (.invalidSchema s!"field '{column.name}' max length {max} does not fit its prefix")
      else .ok ()

/-- The column as a field that begins at `offset`. -/
def place (column : Column) (offset : Nat) : Field := ⟨column.name, offset, column.storage⟩

end Column

namespace Field

/-- The first address after the region of the field. -/
def stop (field : Field) : Nat := (field.offset + field.storage.size) % addressLimit

/-- The `length` bytes of an image from `start`. -/
def slice (image : Bytes) (start length : Nat) : Bytes := (image.drop start).take length

/-- The meaningful bytes of the field in an image of the right length. -/
def data (field : Field) (image : Bytes) : Except Error Bytes :=
  match field.storage with
  | .fixed size => .ok (slice image field.offset size)
  | .counted counter max =>
    let count := Bytes.ofLittleEndian (slice image field.offset counter)
    if count > max then .error (.fieldTooLong field.name max count)
    else .ok (slice image (field.offset + counter) count)

/-- The name, the storage and the place of the field. -/
def display (field : Field) : String :=
  match field.storage with
  | .fixed size => s!"{field.name} FIXED({size})@{field.offset}"
  | .counted counter max => s!"{field.name} VAR{counter}({max})@{field.offset}"

end Field

end SnapshotStore
