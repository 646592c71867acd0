import SnapshotStore.Trie.NodePool

/-!
# Tries

A trie binds byte strings to row handles. A key is spelled nibble by nibble from the root, the high
nibble of a byte first, so a key of `n` bytes ends at depth `2 * n`, and walking the trie with a
node's own value before its children, lowest slot first, meets the keys in byte-wise order.

A path never moves once it exists: binding a key creates the nodes that are missing, and removing a
key clears the value where it ends and leaves the path. Only the two nodes at which something was
written, where a new path hangs on and where the value is, count the write in their revision.

Since a pool never runs out of nodes, a key can always be put.
-/

namespace SnapshotStore

/-- A map from byte strings to row handles. -/
structure Trie where
  pool : NodePool := .empty
  /-- How many keys are bound. -/
  size : Nat := 0
deriving DecidableEq, Inhabited

namespace NodePool

/-- The node where a path from `id` ends, if all of it exists. -/
def walk (pool : NodePool) (id : NodeId) : List Nibble → Option NodeId
  | [] => some id
  | digit :: rest => (pool.child id digit).bind fun child => walk pool child rest

/-- Hands out the nodes that spell a path below a new node, and returns the new node and the node
where the path ends. The new nodes hang on one another but nothing leads to the first yet. -/
def spell (pool : NodePool) : List Nibble → NodePool × NodeId × NodeId
  | [] =>
    let (pool, top) := pool.alloc
    (pool, top, top)
  | digit :: rest =>
    let top := pool.size
    let (pool, _) := pool.alloc (({} : Node).setChild digit (some (top + 1)))
    let (pool, _, last) := pool.spell rest
    (pool, top, last)

/-- The node where a path from `id` ends, after creating what is missing of it. The missing part is
spelled out first and then hung on by a single write to the last node that was there. -/
def reach (pool : NodePool) (id : NodeId) : List Nibble → NodePool × NodeId
  | [] => (pool, id)
  | digit :: rest =>
    match pool.child id digit with
    | some child => reach pool child rest
    | none =>
      let (pool, top, last) := pool.spell rest
      (pool.write id (·.setChild digit (some top)), last)

end NodePool

namespace Trie

/-- The slots that spell a byte. -/
def digitsOfByte (b : UInt8) : List Nibble :=
  [Fin.ofNat 16 (b.toNat / 16), Fin.ofNat 16 b.toNat]

/-- The path that spells a key. -/
def digits (key : Bytes) : List Nibble := key.flatMap digitsOfByte

/-- The key that a path spells; half a byte at the end spells nothing. -/
def spelled : List Nibble → Bytes
  | high :: low :: rest => UInt8.ofNat (high.val * 16 + low.val) :: spelled rest
  | _ => []

/-- No key is bound. -/
def isEmpty (trie : Trie) : Bool := trie.size == 0

/-- How many nodes the trie has, the root included. -/
def nodeCount (trie : Trie) : Nat := trie.pool.size

/-- The row a key is bound to. -/
def get? (trie : Trie) (key : Bytes) : Option RowHandle :=
  (trie.pool.walk NodePool.root (digits key)).bind fun id => (trie.pool.get id).value

/-- Binds a key, whether it was bound or not, and returns the row it was bound to. -/
def put (trie : Trie) (key : Bytes) (handle : RowHandle) : Trie × Option RowHandle :=
  let (pool, id) := trie.pool.reach NodePool.root (digits key)
  let previous := (pool.get id).value
  ({ pool := pool.write id (·.setValue (some handle)),
     size := if previous.isNone then trie.size + 1 else trie.size }, previous)

/-- Binds a key only if it is unbound, and returns the row it is bound to otherwise. The path is
created either way. -/
def putIfAbsent (trie : Trie) (key : Bytes) (handle : RowHandle) : Trie × Option RowHandle :=
  let (pool, id) := trie.pool.reach NodePool.root (digits key)
  match (pool.get id).value with
  | some owner => ({ trie with pool }, some owner)
  | none => ({ pool := pool.write id (·.setValue (some handle)), size := trie.size + 1 }, none)

/-- Unbinds a key if it is bound to `expected`, and says whether it was. -/
def remove (trie : Trie) (key : Bytes) (expected : RowHandle) : Trie × Bool :=
  match trie.pool.walk NodePool.root (digits key) with
  | none => (trie, false)
  | some id =>
    if (trie.pool.get id).value = some expected then
      ({ pool := trie.pool.write id (·.setValue none), size := trie.size - 1 }, true)
    else (trie, false)

/-! ## Paths and keys -/

@[simp] theorem digits_nil : digits [] = [] := rfl

@[simp] theorem digits_cons (b : UInt8) (key : Bytes) :
    digits (b :: key) = digitsOfByte b ++ digits key := by simp [digits]

@[simp] theorem length_digits (key : Bytes) : (digits key).length = 2 * key.length := by
  induction key with
  | nil => rfl
  | cons b key ih => simp [digitsOfByte, ih]; omega

/-- The path of a key spells the key. -/
@[simp] theorem spelled_digits (key : Bytes) : spelled (digits key) = key := by
  induction key with
  | nil => rfl
  | cons b key ih =>
    rw [digits_cons]
    show UInt8.ofNat _ :: spelled (digits key) = b :: key
    rw [ih]
    congr 1
    apply UInt8.toNat_inj.mp
    simp only [UInt8.toNat_ofNat', Fin.ofNat]
    have := b.toNat_lt
    omega

end Trie

end SnapshotStore
