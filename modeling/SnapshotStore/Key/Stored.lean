import SnapshotStore.RowHandle

/-!
# Stored keys

A secondary index keeps a key as an *entry*: the escaped key, a terminator, and the handle of the
row.

    entry = escape key ++ [0, 0] ++ handle        escape: 0 becomes 0 255

Escaping keeps two zero bytes in a row out of the key, so the terminator ends every key before a
longer key that begins like it goes on, and the handle never mixes into the order of keys. Entries
therefore sort by key first, a proper beginning before what it begins, and by handle among rows
that share a key; the entries of one key are those that begin with `encode key`, and the entries of
all keys that begin with `p` are those that begin with `escape p`. `decode?` reads an entry back
and refuses every byte string that is none.
-/

namespace SnapshotStore.Key

/-- What ends an escaped key. -/
def terminator : Bytes := [0, 0]

/-- How one byte of a key is stored. -/
def escapeByte (b : UInt8) : Bytes := if b = 0 then [0, 255] else [b]

/-- A key without two zero bytes in a row. -/
def escape (key : Bytes) : Bytes := key.flatMap escapeByte

/-- The bytes with which all entries of a key begin. -/
def encode (key : Bytes) : Bytes := escape key ++ terminator

/-- The entry of a key for a row. -/
def entry (key : Bytes) (handle : RowHandle) : Bytes := encode key ++ handle.toBytes

/-- Reads an escaped and terminated key to its end. -/
def unescape : Bytes → Option Bytes
  | [] => none
  | b :: rest =>
    if b = 0 then
      match rest with
      | [] => none
      | c :: rest' =>
        if c = 255 then (unescape rest').map (0 :: ·)
        else if c = 0 ∧ rest' = [] then some []
        else none
    else (unescape rest).map (b :: ·)

/-- The key and the row of an entry, `none` for a byte string that is no entry. -/
def decode? (stored : Bytes) : Option (Bytes × RowHandle) := do
  let handle ← RowHandle.ofSuffix? stored
  let key ← unescape (Bytes.dropLast RowHandle.width stored)
  return (key, handle)

/-- Takes the escaped form of `data` off the front of `stored`. -/
def stripEscaped? : (data stored : Bytes) → Option Bytes
  | [], stored => some stored
  | b :: data, stored => ((escapeByte b).isPrefixOf? stored).bind (stripEscaped? data)

/-! ## The parts of an entry -/

@[simp] theorem escape_nil : escape [] = [] := rfl

@[simp] theorem escape_cons (b : UInt8) (key : Bytes) :
    escape (b :: key) = escapeByte b ++ escape key := by simp [escape]

@[simp] theorem escape_append (a b : Bytes) : escape (a ++ b) = escape a ++ escape b := by
  simp [escape]

@[simp] theorem dropLast_entry (key : Bytes) (handle : RowHandle) :
    Bytes.dropLast RowHandle.width (entry key handle) = encode key :=
  Bytes.dropLast_append_of_length _ _ handle.length_toBytes

@[simp] theorem ofSuffix?_entry (key : Bytes) (handle : RowHandle) :
    RowHandle.ofSuffix? (entry key handle) = some handle :=
  RowHandle.ofSuffix?_append_toBytes _ _

end SnapshotStore.Key
