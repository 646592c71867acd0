import SnapshotStore.Error

/-!
# Isolation levels

A transaction reads either from one snapshot taken when it begins, or from a fresh snapshot for
each of its statements. The levels have names, in which case does not matter, and a number for
storage.
-/

namespace SnapshotStore

/-- How long a snapshot serves. -/
inductive Isolation where
  /-- Every statement takes a fresh snapshot. -/
  | readCommitted
  /-- One snapshot serves the whole transaction; also called repeatable read. -/
  | snapshot
deriving DecidableEq, Inhabited

namespace Isolation

/-- The name of a level. -/
def display : Isolation → String
  | readCommitted => "READ COMMITTED"
  | snapshot => "SNAPSHOT ISOLATION"

/-- The description that logs use. -/
def describe : Isolation → String
  | readCommitted => "ReadCommitted"
  | snapshot => "SnapshotIsolation"

/-- The capital of a letter, as far as the names of levels can tell: dotless i and long s are the
only letters beyond ASCII whose capital is one letter of ASCII. -/
def capital (c : Char) : Char :=
  if c = 'ı' then 'I' else if c = 'ſ' then 'S' else c.toUpper

/-- The level of that name, blanks and the older name included. -/
def parse (text : String) : Except Error Isolation :=
  let name := text.map capital
  if name ∈ ["READ COMMITTED", "READCOMMITTED"] then .ok readCommitted
  else if name ∈
      ["SNAPSHOT ISOLATION", "SNAPSHOTISOLATION", "REPEATABLE READ", "REPEATABLEREAD"] then
    .ok snapshot
  else .error (.invalidArgument s!"unknown isolation level: {text}")

/-- The number that stores a level. -/
def toNat : Isolation → Nat
  | readCommitted => 0
  | snapshot => 1

/-- The level that a number stores. -/
def ofNat? : Nat → Option Isolation
  | 0 => some readCommitted
  | 1 => some snapshot
  | _ => none

end Isolation

end SnapshotStore
