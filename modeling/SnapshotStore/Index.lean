import SnapshotStore.Key.Spec
import SnapshotStore.Trie.Cursor

/-!
# Indexes

An index is a key specification and the trie of its entries.
-/

namespace SnapshotStore

/-- Entries kept in the order of the keys that a specification describes. -/
structure Index where
  spec : KeySpec
  trie : Trie := {}
deriving DecidableEq, Inhabited

namespace Index

/-- The index goes by that name, up to the case of ASCII letters. -/
def isNamed (index : Index) (name : String) : Bool := index.spec.name.toLower == name.toLower

/-- The rows stored under the key of an entry, in handle order. -/
def owners (index : Index) (entry : Bytes) : List RowHandle :=
  (index.trie.entriesBeginning (Bytes.dropLast RowHandle.width entry)).map Prod.snd

/-- The description that logs use. -/
def describe (index : Index) : String :=
  Text.described "ConcurrentTrieIndex" [
    ("name", Text.quoted index.spec.name),
    ("unique", Text.truth index.spec.unique),
    ("len", toString index.trie.size)]

end Index

end SnapshotStore
