import SnapshotStore.Key.Stored
import SnapshotStore.Record

/-!
# What an index is keyed on

A key specification names the fields whose meaningful bytes, one after another, are the key of a
record. The functions here build a record's key and its entry, compare two records without
building anything, and match a record against an entry in place. They stop at the first part that
decides, so a part that cannot be read is noticed only if no earlier part differs.

Every function that builds a key refuses one that is longer than `limit`; the limit speaks of the
key itself, not of its escaped form.
-/

namespace SnapshotStore

/-- The fields an index is keyed on. -/
structure KeySpec where
  name : String
  /-- Positions of fields, in the order in which they make up the key. -/
  parts : List Nat
  unique : Bool
  /-- The longest key the fields can produce, known once the specification is bound. -/
  width : Nat := 0
deriving DecidableEq, Inhabited

namespace Key

/-- Refuses a key longer than `limit`. -/
def checkLength (limit length : Nat) : Except Error Unit :=
  if length > limit then .error (.keyTooLong limit length) else .ok ()

/-- The bytes with which all entries of a key begin, for a key within the limit. -/
def lookup (limit : Nat) (key : Bytes) : Except Error Bytes := do
  checkLength limit key.length
  return encode key

/-- A key put together from the bytes of its parts; fewer parts than an index has make a key that
begins others. -/
def join (limit : Nat) (parts : List Bytes) : Except Error Bytes := do
  let key := parts.flatten
  checkLength limit key.length
  return key

end Key

namespace KeySpec

/-- Checks the parts against a schema and notes the longest key they can produce. -/
def bind (spec : KeySpec) (schema : Schema) : Except Error KeySpec := do
  if spec.parts.isEmpty then
    throw (.invalidArgument s!"index '{spec.name}' has no key parts")
  let width ← spec.parts.foldlM (fun width part => do
    let field ← schema.field part
    return (width + field.storage.maxData) % addressLimit) 0
  return { spec with width }

/-- The bytes of each part in a record. -/
def partsOf (spec : KeySpec) (record : Record) : Except Error (List Bytes) :=
  spec.parts.mapM record.field

/-- The key of a record, whatever its length. -/
def keyOf (spec : KeySpec) (record : Record) : Except Error Bytes := do
  let parts ← spec.partsOf record
  return parts.flatten

/-- The key of a record. -/
def key (spec : KeySpec) (limit : Nat) (record : Record) : Except Error Bytes := do
  let key ← spec.keyOf record
  Key.checkLength limit key.length
  return key

/-- The entry of a record for a row. Each part is escaped by itself. -/
def entry (spec : KeySpec) (limit : Nat) (record : Record) (handle : RowHandle) :
    Except Error Bytes := do
  let parts ← spec.partsOf record
  Key.checkLength limit parts.flatten.length
  return (parts.map Key.escape).flatten ++ Key.terminator ++ handle.toBytes

/-- The parts at these positions, escaped and terminated, are exactly `stored`. -/
def matchParts (record : Record) : List Nat → Bytes → Except Error Bool
  | [], stored => .ok (stored == Key.terminator)
  | part :: rest, stored => do
    let data ← record.field part
    match Key.stripEscaped? data stored with
    | some stored => matchParts record rest stored
    | none => return false

/-- The byte string is an entry of the record's key, for whichever row. -/
def carries (spec : KeySpec) (record : Record) (stored : Bytes) : Except Error Bool :=
  if stored.length < RowHandle.width then .ok false
  else matchParts record spec.parts (Bytes.dropLast RowHandle.width stored)

/-- Two records agree on the parts at these positions. -/
def sameParts (a b : Record) : List Nat → Except Error Bool
  | [] => .ok true
  | part :: rest => do
    let x ← a.field part
    let y ← b.field part
    if x = y then sameParts a b rest else return false

/-- Two records have the same key. -/
def sameKey (spec : KeySpec) (a b : Record) : Except Error Bool := sameParts a b spec.parts

end KeySpec

end SnapshotStore
