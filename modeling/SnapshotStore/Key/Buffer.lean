import SnapshotStore.Key.Spec

/-!
# Key buffers

A worker builds its keys in one place, one after another, and reads each of them there before it builds
the next. A key that could not be built leaves the parts behind that could be read, so the place holds
leftovers of all kinds when a key is begun, and every key is begun by clearing it.

An entry is escaped part by part while it is built. Its bytes no longer tell how long the key is, so
the parts are counted on the way.
-/

namespace SnapshotStore

/-- A place to build keys in. -/
structure KeyBuffer where
  /-- The longest key that is accepted. -/
  limit : Nat
  bytes : Bytes := []
deriving DecidableEq, Inhabited

namespace KeyBuffer

/-- The buffer afterwards, and what was built in it. -/
abbrev Step (α : Type) := KeyBuffer × Except Error α

/-- Empties the buffer. -/
def clear (buffer : KeyBuffer) : KeyBuffer := { buffer with bytes := [] }

/-- Puts bytes behind what is there. -/
def append (buffer : KeyBuffer) (bytes : Bytes) : KeyBuffer :=
  { buffer with bytes := buffer.bytes ++ bytes }

/-- Puts the parts at these positions behind what is there. -/
def write (buffer : KeyBuffer) (record : Record) : List Nat → Step Unit
  | [] => (buffer, .ok ())
  | part :: parts =>
    match record.field part with
    | .error error => (buffer, .error error)
    | .ok data => (buffer.append data).write record parts

/-- Puts the parts at these positions behind what is there, escaped, and goes on counting their
bytes. -/
def writeEscaped (buffer : KeyBuffer) (record : Record) (length : Nat) : List Nat → Step Nat
  | [] => (buffer, .ok length)
  | part :: parts =>
    match record.field part with
    | .error error => (buffer, .error error)
    | .ok data =>
      (buffer.append (Key.escape data)).writeEscaped record (length + data.length) parts

/-- Ends a key of that length, of which `rest` is still missing. -/
def finish (buffer : KeyBuffer) (length : Nat) (rest : Bytes) : Step Bytes :=
  match Key.checkLength buffer.limit length with
  | .error error => (buffer, .error error)
  | .ok () =>
    let buffer := buffer.append rest
    (buffer, .ok buffer.bytes)

/-- Builds the key of a record. -/
def build (buffer : KeyBuffer) (spec : KeySpec) (record : Record) : Step Bytes :=
  match buffer.clear.write record spec.parts with
  | (buffer, .error error) => (buffer, .error error)
  | (buffer, .ok ()) => buffer.finish buffer.bytes.length []

/-- Builds the entry of a record for a row. -/
def buildEntry (buffer : KeyBuffer) (spec : KeySpec) (record : Record) (handle : RowHandle) :
    Step Bytes :=
  match buffer.clear.writeEscaped record 0 spec.parts with
  | (buffer, .error error) => (buffer, .error error)
  | (buffer, .ok length) => buffer.finish length (Key.terminator ++ handle.toBytes)

/-- Builds the bytes with which all entries of a key begin. -/
def buildLookup (buffer : KeyBuffer) (key : Bytes) : Step Bytes :=
  buffer.clear.finish key.length (Key.encode key)

/-- Builds a key from the bytes of its parts. -/
def buildParts (buffer : KeyBuffer) (parts : List Bytes) : Step Bytes :=
  let buffer := parts.foldl append buffer.clear
  buffer.finish buffer.bytes.length []

/-- Builds the key of a row in the primary structure. -/
def buildHandle (buffer : KeyBuffer) (handle : RowHandle) : KeyBuffer × Bytes :=
  let buffer := buffer.clear.append handle.toBytes
  (buffer, buffer.bytes)

end KeyBuffer

end SnapshotStore
