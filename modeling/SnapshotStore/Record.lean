import SnapshotStore.Schema.Basic
import SnapshotStore.Text.Quoted

/-!
# Records

A record is a row image that its schema accepts. That it is accepted is part of the record, so
nothing that reads a record checks it again. Two records hold the same image if their bytes are
equal, whichever schemas they were laid out by.
-/

namespace SnapshotStore

/-- A row image together with the schema that accepts it. -/
structure Record where
  schema : Schema
  bytes : Bytes
  accepted : schema.check bytes = .ok ()
deriving DecidableEq

namespace Record

/-- The record of an image, or why the schema refuses it. -/
def ofBytes (schema : Schema) (bytes : Bytes) : Except Error Record :=
  match h : schema.check bytes with
  | .ok () => .ok ⟨schema, bytes, h⟩
  | .error e => .error e

/-- The meaningful bytes of the field at a position. -/
def field (record : Record) (index : Nat) : Except Error Bytes := do
  let field ← record.schema.field index
  field.data record.bytes

/-- The records hold the same image. -/
def sameImage (a b : Record) : Bool := a.bytes == b.bytes

/-- How many bytes of an image a description shows. -/
def shownBytes : Nat := 32

/-- The description that logs use: the length and the beginning of the image. -/
def describe (record : Record) : String :=
  Text.described "Record" [
    ("len", toString record.bytes.length),
    ("data", Text.listed ((record.bytes.take shownBytes).map fun b => toString b.toNat))]

end Record

end SnapshotStore
