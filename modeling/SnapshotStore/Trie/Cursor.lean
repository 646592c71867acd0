import SnapshotStore.Trie.Basic

/-!
# Cursors

A cursor rests on one entry of a trie and moves from entry to entry in key order, or against it. It
is a plain value that holds nothing in the trie: a stack of frames, one for each node from the one
it rests on up to the root, each with the slots of the node that are still to be visited and the
revision the node had when the cursor came by.

Between two moves the trie may change. Before a cursor moves it compares the revisions in its
frames with the nodes; if one of them has changed, the slots it remembers are worth nothing, and it
looks for its place again, strictly past the key it rests on. A key that was bound ahead of the
cursor in the meantime is therefore met, and no key is met twice. A cursor that has run off the end
of its range is exhausted and stays so, whatever is bound later.

## 1. Slots in scan order

Both directions visit the slots of a node one after another and differ in the order alone, so the
place of a cursor within a node is the list of the slots that are left.
-/

namespace SnapshotStore

/-- The direction of a scan. -/
inductive Direction where
  | forward
  | backward
deriving DecidableEq, Inhabited

namespace Direction

/-- Keys are met in ascending order. -/
def isForward : Direction → Bool
  | forward => true
  | backward => false

end Direction

namespace Trie

/-- What a cursor visits at a node: the entry that ends there, or what lies below a child. -/
inductive Slot where
  | value
  | child (digit : Nibble)
deriving DecidableEq, Inhabited

namespace Slot

/-- All slots of a node in scan order. A node's own key is a proper beginning of the keys below it,
so it comes first in ascending order and last in descending order. -/
def all : Direction → List Slot
  | .forward => value :: (List.finRange 16).map child
  | .backward => ((List.finRange 16).map child).reverse ++ [value]

/-- The slots from a given one on. -/
def onward (direction : Direction) (slot : Slot) : List Slot :=
  (all direction).dropWhile (· ≠ slot)

/-- The slots past a given one. -/
def past (direction : Direction) (slot : Slot) : List Slot := (onward direction slot).tail

end Slot

/-! ## 2. Frames and places -/

/-- A node on the path of a cursor. -/
structure Frame where
  node : NodeId
  /-- The revision of the node when the cursor came by. -/
  revision : Nat
  /-- The slots still to be visited. -/
  rest : List Slot
deriving DecidableEq, Inhabited

/-- A place in a trie: the frames from the deepest node up to the root, and the digits from the
deepest up that lead there. -/
structure Place where
  frames : List Frame := []
  path : List Nibble := []
deriving DecidableEq, Inhabited

/-- An entry and the place right after it. -/
structure Landing where
  place : Place
  handle : RowHandle
deriving DecidableEq

namespace Frame

/-- A node that is entered with the given slots to visit. -/
def enter (pool : NodePool) (id : NodeId) (rest : List Slot) : Frame :=
  ⟨id, (pool.get id).revision, rest⟩

/-- The node has not changed since the cursor came by. -/
def isCurrent (pool : NodePool) (frame : Frame) : Bool :=
  (pool.get frame.node).unchangedSince frame.revision

end Frame

namespace Place

/-- The place at or past the end of a path that goes on from `id`, below the frames and the digits
that lead to `id`. The path may leave the trie on the way; then the place is past the slot where it
left. -/
def seek (pool : NodePool) (direction : Direction) (inclusive : Bool) (above : Place)
    (id : NodeId) : List Nibble → Place
  | [] =>
    let slots := if inclusive then Slot.onward direction .value else Slot.past direction .value
    { above with frames := .enter pool id slots :: above.frames }
  | digit :: digits =>
    let frames := .enter pool id (Slot.past direction (.child digit)) :: above.frames
    match pool.child id digit with
    | none => { above with frames }
    | some child =>
      seek pool direction inclusive { frames, path := digit :: above.path } child digits

end Place

/-- The first answer that `visit` gives for an element and the elements after it. -/
def firstWithRest {α β : Type} (visit : α → List α → Option β) : List α → Option β
  | [] => none
  | a :: rest =>
    match visit a rest with
    | some b => some b
    | none => firstWithRest visit rest

/-- The first entry in the slots that a frame has left, looking no more than `depth` nodes deep. A
key is a whole number of bytes, so what ends at an odd depth is no entry. -/
def firstBelow (pool : NodePool) (direction : Direction) :
    (depth : Nat) → Frame → List Nibble → Option Landing
  | 0, _, _ => none
  | depth + 1, frame, path =>
    firstWithRest (fun slot rest =>
      let here := { frame with rest }
      match slot with
      | .value =>
        if path.length % 2 = 0 then
          (pool.get frame.node).value.map fun handle => ⟨⟨[here], path⟩, handle⟩
        else none
      | .child digit =>
        (pool.child frame.node digit).bind fun child =>
          let below := .enter pool child (Slot.all direction)
          (firstBelow pool direction depth below (digit :: path)).map fun landing =>
            ⟨⟨landing.place.frames ++ [here], landing.place.path⟩, landing.handle⟩) frame.rest

/-- The first entry from a place on: in what the deepest frame has left, or else in what the frames
above it have left. A child is handed out after its parent, so no path is longer than the pool. -/
def firstFrom (pool : NodePool) (direction : Direction) :
    List Frame → List Nibble → Option Landing
  | [], _ => none
  | frame :: above, path =>
    match firstBelow pool direction pool.size frame path with
    | some landing =>
      some ⟨⟨landing.place.frames ++ above, landing.place.path⟩, landing.handle⟩
    | none => firstFrom pool direction above path.tail

/-! ## 3. Cursors -/

/-- The position of a scan. -/
structure Cursor where
  direction : Direction
  /-- The scan is over the keys that begin with these bytes. -/
  beginning : Bytes := []
  place : Place := {}
  /-- The key the cursor rests on, or last rested on. -/
  key : Bytes := []
  /-- The row of the entry the cursor rests on, as it was when the cursor moved there. -/
  handle : Option RowHandle := none
  exhausted : Bool := false
deriving DecidableEq, Inhabited

namespace Cursor

/-- The entry the cursor rests on. -/
def current (cursor : Cursor) : Option (Bytes × RowHandle) :=
  cursor.handle.map fun handle => (cursor.key, handle)

/-- The cursor at the end of its range. -/
def exhaust (cursor : Cursor) : Cursor :=
  { cursor with place := {}, handle := none, exhausted := true }

/-- Puts the cursor before the first key at or past `start`. -/
def seek (cursor : Cursor) (trie : Trie) (start : Bytes) (inclusive : Bool) : Cursor :=
  { cursor with
    handle := none
    place :=
      Place.seek trie.pool cursor.direction inclusive {} NodePool.root (digits start) }

/-- Some node on the path of the cursor has changed since it came by. -/
def isStale (cursor : Cursor) (trie : Trie) : Bool :=
  cursor.place.frames.any fun frame => !frame.isCurrent trie.pool

/-- Finds the cursor's place again if the trie has changed under it. -/
def resume (cursor : Cursor) (trie : Trie) : Cursor :=
  if cursor.exhausted || !cursor.isStale trie then cursor
  else cursor.seek trie cursor.key false

/-- Moves to the first entry from the cursor's place on, within its range. -/
def advance (cursor : Cursor) (trie : Trie) : Cursor :=
  if cursor.exhausted then cursor.exhaust
  else
    match firstFrom trie.pool cursor.direction cursor.place.frames cursor.place.path with
    | none => cursor.exhaust
    | some landing =>
      let key := spelled landing.place.path.reverse
      if cursor.beginning.isPrefixOf key then
        { cursor with place := landing.place, key, handle := some landing.handle }
      else cursor.exhaust

/-- Moves to the next entry of the trie as it is now. -/
def next (cursor : Cursor) (trie : Trie) : Cursor := (cursor.resume trie).advance trie

/-- Moves up to `count` times, stopping at the end of the range, and lists where each move led. -/
def moves (cursor : Cursor) (trie : Trie) :
    (count : Nat) → Cursor × List (Option (Bytes × RowHandle))
  | 0 => (cursor, [])
  | count + 1 =>
    let moved := cursor.next trie
    match moved.current with
    | none => (moved, [none])
    | some entry =>
      let (last, rest) := moves moved trie count
      (last, some entry :: rest)

/-- The entry the cursor rests on and those after it, `count` at most. -/
def entries (cursor : Cursor) (trie : Trie) : (count : Nat) → List (Bytes × RowHandle)
  | 0 => []
  | count + 1 =>
    match cursor.current with
    | none => []
    | some entry => entry :: entries (cursor.next trie) trie count

end Cursor

/-- A cursor on the first key at or past `start`: the least key `≥ start` (`> start`) going
forward, the greatest key `≤ start` (`< start`) going backward. -/
def scan (trie : Trie) (start : Bytes) (inclusive : Bool) (direction : Direction) : Cursor :=
  (({ direction } : Cursor).seek trie start inclusive).advance trie

/-- A cursor on the first of the keys that begin with the given bytes. -/
def scanBeginning (trie : Trie) (beginning : Bytes) : Cursor :=
  (({ direction := .forward, beginning } : Cursor).seek trie beginning true).advance trie

/-- The entries whose keys begin with the given bytes, in key order. Each ends at a node of its
own, so there are no more of them than nodes. -/
def entriesBeginning (trie : Trie) (beginning : Bytes) : List (Bytes × RowHandle) :=
  (trie.scanBeginning beginning).entries trie trie.nodeCount

/-- All entries in key order. -/
def toList (trie : Trie) : List (Bytes × RowHandle) := trie.entriesBeginning []

end Trie

end SnapshotStore
