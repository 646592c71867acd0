import SnapshotStore.Record
import SnapshotStore.RowHandle
import SnapshotStore.Version.Stamp

/-!
# Version chains

A row is a chain of versions, the newest first. A version never changes its record or its stamp;
what is written later goes on top of it. A deletion is a mark on the newest version, set by the
deleting transaction and cleared if that transaction is undone.

A reader takes the first version whose creation it sees, and sees the row as deleted if it sees the
mark on that version. A writer may write over the newest version only if that is what it would read:
the version is its own or was committed under its snapshot, and it bears no mark.

Truncation replaces a newest version that everybody sees by a copy without history. References that
are held to a version tell it from its copy, so a version carries an identity.
-/

namespace SnapshotStore

/-- The identity of a version within its table. -/
structure VersionId where
  serial : Nat
  /-- The version is the copy that truncation left behind. -/
  copied : Bool := false
deriving DecidableEq, Inhabited

/-- One version of a row. -/
structure Version where
  id : VersionId
  record : Record
  created : Stamp
  /-- The packed stamp of the deletion, `0` if there is none. -/
  deletion : UInt64 := 0
deriving DecidableEq

namespace Version

/-- The stamp of the deletion, if the version is marked. -/
def deleted (version : Version) : Option Stamp := Stamp.unpack? version.deletion

/-- The version bears a deletion mark. -/
def isMarked (version : Version) : Bool := version.deleted.isSome

/-- Marks the version deleted. -/
def mark (version : Version) (stamp : Stamp) : Version := { version with deletion := stamp.pack }

/-- Clears the mark if `transaction` set it. -/
def unmark (version : Version) (transaction : Int) : Version :=
  if version.deleted.any (·.transaction == transaction) then { version with deletion := 0 }
  else version

/-- The version as a copy without history. -/
def copy (version : Version) : Version := { version with id.copied := true }

/-- A transaction with that snapshot may write over the version. -/
def isWritable (version : Version) (ledger : Ledger) (transaction snapshot : Int) : Bool :=
  !version.isMarked
    && (version.created.transaction == transaction
      || ledger.committedBy version.created.transaction snapshot)

/-- The description that logs use, where `hasOlder` says whether the version lies on another. -/
def describe (version : Version) (hasOlder : Bool) : String :=
  Text.described "VersionNode" [
    ("created", version.created.describe),
    ("deleted", match version.deleted with
      | some stamp => "Some(" ++ stamp.describe ++ ")"
      | none => "None"),
    ("has_older", Text.truth hasOlder)]

end Version

/-- The versions of a row, the newest first. -/
abbrev Chain := List Version

/-- What a view makes of a chain. -/
inductive Reading where
  /-- The version the view sees, and the versions it lies on. -/
  | visible (version : Version) (older : Chain)
  /-- The view sees the row as deleted. -/
  | deleted
  /-- The view sees no version of the row. -/
  | invisible
deriving DecidableEq

namespace Chain

/-- What a view makes of a chain: the first version whose creation it sees decides. -/
def read (ledger : Ledger) (view : View) : Chain → Reading
  | [] => .invisible
  | version :: older =>
    if view.sees ledger version.created then
      if version.deleted.any (view.sees ledger) then .deleted else .visible version older
    else read ledger view older

/-- Applies a change to the version of that identity. -/
def change (chain : Chain) (id : VersionId) (f : Version → Version) : Chain :=
  List.map (fun version => if version.id = id then f version else version) chain

/-- Takes the newest version off the chain if it is the one of that identity. -/
def unlink (chain : Chain) (id : VersionId) : Chain :=
  match chain with
  | newest :: older => if newest.id = id then older else newest :: older
  | [] => []

/-- Everybody reads the newest version, now and later, and it lies on others. -/
def isSettled (chain : Chain) (ledger : Ledger) (horizon : Int) : Bool :=
  match chain with
  | newest :: _ :: _ =>
    !newest.isMarked && ledger.committedBy newest.created.transaction horizon
  | _ => false

/-- Drops the versions that nobody can reach any more: all but a copy of the newest, if the chain is
settled. -/
def truncate (chain : Chain) (ledger : Ledger) (horizon : Int) : Chain :=
  if chain.isSettled ledger horizon then (chain.take 1).map Version.copy else chain

/-- The description that logs use. -/
def describe (chain : Chain) (handle : RowHandle) : String :=
  Text.described "VersionChainHead" [
    ("handle", handle.describe),
    ("newest", match chain with
      | newest :: older => "Some(" ++ newest.describe (!older.isEmpty) ++ ")"
      | [] => "None")]

end Chain

end SnapshotStore
