import SnapshotStore.RowHandle

/-!
# The nodes of a trie

A trie keeps its nodes in a pool and links them by number. A node has a value, sixteen child slots
and a *revision*, which counts the writes to the node so that a reader who remembers it can tell
whether the node has changed since. A writer latches the node first; while it is latched the
revision is odd, and no reader's remembered revision is. Releasing the latch moves the revision on
to the next even number if something was written, and back to where it was if not.

Nodes are handed out in order and are never given back. Node `0` is the root: it exists from the
start and is nobody's child, which is why an empty slot can be shown as `0`.

A pool is unbounded: it always has another node to hand out. That an arena of nodes numbered by a
word can be exhausted, so that no more keys can be put, is left out here and in everything that
allocates.
-/

namespace SnapshotStore

/-- One of the sixteen child slots of a node. -/
abbrev Nibble := Fin 16

/-- The number of a node in its pool. -/
abbrev NodeId := Nat

/-- A node of a trie. -/
structure Node where
  /-- Twice the number of writes, plus one while the node is latched. -/
  revision : Nat := 0
  /-- The row bound to the key that ends here. -/
  value : Option RowHandle := none
  children : Vector (Option NodeId) 16 := Vector.replicate 16 none
deriving DecidableEq, Inhabited

namespace Node

/-- The child in a slot. -/
def child (node : Node) (digit : Nibble) : Option NodeId := node.children[digit]

/-- The node is as it was when its revision was `seen`. -/
def unchangedSince (node : Node) (seen : Nat) : Bool := node.revision == seen

/-- The node with its latch taken. -/
def latch (node : Node) : Node := { node with revision := node.revision + 1 }

/-- The node with its latch released, after something was written or not. -/
def release (node : Node) (written : Bool) : Node :=
  { node with revision := if written then node.revision + 1 else node.revision - 1 }

/-- Sets the value; the latch is held. -/
def setValue (node : Node) (value : Option RowHandle) : Node := { node with value }

/-- Sets a child slot; the latch is held. -/
def setChild (node : Node) (digit : Nibble) (child : Option NodeId) : Node :=
  { node with children := node.children.set digit child }

/-- Performs one write under the latch. -/
def write (node : Node) (change : Node → Node) : Node := (change node.latch).release true

end Node

/-- The nodes handed out so far, by number. -/
structure NodePool where
  nodes : Array Node
deriving DecidableEq, Inhabited

namespace NodePool

/-- A pool that holds the root alone. -/
def empty : NodePool := ⟨#[{}]⟩

/-- The number of the root. -/
def root : NodeId := 0

/-- How many nodes have been handed out, the root included. -/
def size (pool : NodePool) : Nat := pool.nodes.size

/-- The node of that number; one that was never handed out is blank. -/
def get (pool : NodePool) (id : NodeId) : Node := pool.nodes[id]?.getD {}

/-- The child of a node in a slot. -/
def child (pool : NodePool) (id : NodeId) (digit : Nibble) : Option NodeId :=
  (pool.get id).child digit

/-- Hands out a node. -/
def alloc (pool : NodePool) (node : Node := {}) : NodePool × NodeId :=
  (⟨pool.nodes.push node⟩, pool.size)

/-- Applies a change to a node. -/
def modify (pool : NodePool) (id : NodeId) (change : Node → Node) : NodePool :=
  ⟨pool.nodes.modify id change⟩

/-- Performs one write to a node under its latch. -/
def write (pool : NodePool) (id : NodeId) (change : Node → Node) : NodePool :=
  pool.modify id (·.write change)

end NodePool

end SnapshotStore
