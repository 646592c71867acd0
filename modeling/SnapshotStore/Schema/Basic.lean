import SnapshotStore.Schema.Field
import SnapshotStore.Text.Lowercase

/-!
# Schemas

A schema lays fields out one after another behind a number of bytes that belong to no field.
`Schema.build` is the only way to get one, so the regions of its fields follow one another without
gap or overlap and no two names are the same up to case. `Schema.check` says which byte strings
are row images of the schema.
-/

namespace SnapshotStore

/-- The layout of a row image. -/
structure Schema where
  /-- Bytes before the first field. -/
  nullBytes : Nat
  /-- The fields in the order of their places. -/
  fields : List Field
  /-- The length of every row image. -/
  rowLength : Nat
deriving DecidableEq, Inhabited

namespace Schema

/-- Places columns one after another from `offset`, where `taken` holds the names in use, and
returns the fields and the first address after the last. -/
def placeColumns (offset : Nat) (taken : List String) :
    List Column → Except Error (List Field × Nat)
  | [] => .ok ([], offset)
  | column :: rest => do
    column.check
    let name := Text.lowercase column.name
    if name ∈ taken then
      throw (.invalidSchema s!"duplicate field '{column.name}'")
    let field := column.place offset
    let (fields, stop) ← placeColumns field.stop (name :: taken) rest
    return (field :: fields, stop)

/-- Lays columns out behind `nullBytes` bytes. -/
def build (nullBytes : Nat) (columns : List Column) : Except Error Schema := do
  if columns.isEmpty then
    throw (.invalidSchema "schema has no fields")
  let (fields, stop) ← placeColumns nullBytes [] columns
  return ⟨nullBytes, fields, stop⟩

/-- The field at a position. -/
def field (schema : Schema) (index : Nat) : Except Error Field :=
  match schema.fields[index]? with
  | some field => .ok field
  | none => .error (.fieldIndexOutOfBounds index)

/-- The position of the field of that name, whatever its case. -/
def indexOf? (schema : Schema) (name : String) : Option Nat :=
  schema.fields.findIdx? fun field => Text.lowercase field.name = Text.lowercase name

/-- Accepts the row images of the schema: byte strings of its length in which every count is
within its limit. -/
def check (schema : Schema) (image : Bytes) : Except Error Unit :=
  if image.length ≠ schema.rowLength then
    .error (.recordLengthMismatch schema.rowLength image.length)
  else
    schema.fields.forM fun field => do
      let _ ← field.data image

/-- The fields between parentheses. -/
def display (schema : Schema) : String :=
  "(" ++ ", ".intercalate (schema.fields.map Field.display) ++ ")"

end Schema

end SnapshotStore
