import Mathlib
import SnapshotStore.Proofs.Trie.Dictionary

/-!
# The nodes of a trie spell the beginnings of its keys

A path is created once and stays. So the nodes of a trie tell which keys were ever written to it, and
tell nothing else: there is one node for each beginning of the path of such a key, whether the key came to
be bound, was refused because it was bound already, or has been taken out since
(`Trie.calls_isNibbleTree`). Looking up and taking out create nothing.

The argument counts. A path leads to one node at most, and to a node leads one path at most
(`IsTree.walk_root_injective`). So if every path of a set leads to a node and there are as many of them
as nodes (`NodePool.MadeOf`), no node is left over and no other path leads to one. To keep this, a new
path has to create as many nodes as it has beginnings that led nowhere (`size_reach`); which nodes these
are, and what they are linked to, need not be known.
-/

namespace SnapshotStore
namespace NodePool

/-! ## 1. What a node spells -/

/-- A node spells the digits of the slots that lead to it from the root. -/
inductive Names (pool : NodePool) : NodeId → List Nibble → Prop
  | root : Names pool NodePool.root []
  | child {id child : NodeId} {digit : Nibble} {path : List Nibble} (parent : Names pool id path)
    (slot : pool.child id digit = some child) : Names pool child (path ++ [digit])

/-- Following the slots up from a node and walking a path down from the root come to the same. -/
theorem names_iff_walk {pool : NodePool} {id : Nat} {path : List Nibble} :
    pool.Names id path ↔ pool.walk root path = some id := by
  constructor
  · intro h
    induction h with
    | root => rfl
    | child _ slot ih =>
      rw [walk_concat, ih]
      exact slot
  · intro h
    induction path using List.reverseRecOn generalizing id with
    | nil =>
      cases h
      exact .root
    | append_singleton path digit ih =>
      rw [walk_concat] at h
      obtain ⟨parent, hparent, hslot⟩ := Option.bind_eq_some_iff.mp h
      exact .child (ih hparent) hslot

/-! ## 2. How many nodes there are -/

/-- A path creates a node for each of its beginnings that led nowhere. -/
theorem size_reach (pool : NodePool) (id : Nat) (path : List Nibble) :
    (pool.reach id path).1.size =
      pool.size + path.inits.countP fun start => (pool.walk id start).isNone := by
  induction path generalizing id with
  | nil => rfl
  | cons digit rest ih =>
    rw [reach, List.inits_cons, List.countP_cons, List.countP_map]
    cases hc : pool.child id digit with
    | some child =>
      have hbelow : ((fun start => (pool.walk id start).isNone) ∘ fun start => digit :: start) =
          fun start => (pool.walk child start).isNone := by
        funext start
        rw [Function.comp_apply, walk_cons, hc, Option.bind_some]
      rw [hbelow]
      exact ih child
    | none =>
      -- Nothing beyond was there either: each digit that is left makes a node.
      have hmissing : ∀ start ∈ rest.inits,
          ((fun start => (pool.walk id start).isNone) ∘ fun start => digit :: start) start = true := by
        intro start _
        rw [Function.comp_apply, walk_cons, hc]
        rfl
      rw [List.countP_eq_length.mpr hmissing, List.length_inits, size_write,
        (spell_spec pool rest).2.size_eq]
      rfl

theorem nodup_inits {α : Type} (l : List α) : l.inits.Nodup := by
  induction l with
  | nil => exact List.nodup_singleton _
  | cons a l ih =>
    rw [List.inits_cons, List.nodup_cons]
    exact ⟨by simp, ih.map List.cons_injective⟩

/-- The paths lead to nodes, and there are as many of them as nodes. -/
structure MadeOf (pool : NodePool) (paths : Finset (List Nibble)) : Prop where
  tree : pool.IsTree
  walks : ∀ path ∈ paths, ∃ id, pool.walk root path = some id
  card : paths.card = pool.size

theorem madeOf_empty : empty.MadeOf {[]} where
  tree := isTree_empty
  walks path hpath := by
    rw [Finset.mem_singleton.mp hpath]
    exact ⟨root, rfl⟩
  card := rfl

namespace MadeOf

variable {pool : NodePool} {paths : Finset (List Nibble)} (made : pool.MadeOf paths)
include made

/-- No node is left over. -/
theorem exists_path {id : Nat} (hid : id < pool.size) :
    ∃ path ∈ paths, pool.walk root path = some id := by
  -- The paths lead to different nodes and there are as many of them, so they lead to all.
  choose node hnode using made.walks
  have hlt : ∀ path hpath, node path hpath ∈ Finset.range pool.size := fun path hpath =>
    Finset.mem_range.mpr (made.tree.walk_lt made.tree.nonempty (hnode path hpath))
  have hinj : ∀ p q hp hq, node p hp = node q hq → p = q := fun p q hp hq h =>
    made.tree.walk_root_injective (h ▸ hnode p hp) (hnode q hq)
  have hcard : (Finset.range pool.size).card ≤ paths.card := by
    rw [Finset.card_range, made.card]
  obtain ⟨path, hpath, rfl⟩ :=
    Finset.surj_on_of_inj_on_of_card_le node hlt hinj hcard id (Finset.mem_range.mpr hid)
  exact ⟨path, hpath, hnode path hpath⟩

/-- No other path leads to a node. -/
theorem mem_iff {path : List Nibble} : path ∈ paths ↔ ∃ id, pool.walk root path = some id := by
  constructor
  · exact made.walks path
  · rintro ⟨id, hid⟩
    obtain ⟨path', hmem, hpath'⟩ :=
      made.exists_path (made.tree.walk_lt made.tree.nonempty hid)
    rw [made.tree.walk_root_injective hid hpath']
    exact hmem

/-- The beginnings of a path that led nowhere are those that are not among the paths. -/
theorem countP_inits (path : List Nibble) :
    path.inits.countP (fun start => (pool.walk root start).isNone) =
      (path.inits.toFinset \ paths).card := by
  have hnew : path.inits.toFinset \ paths =
      (path.inits.filter fun start => (pool.walk root start).isNone).toFinset := by
    ext start
    rw [Finset.mem_sdiff, made.mem_iff, ← Option.isSome_iff_exists, Option.not_isSome_iff_eq_none,
      ← Option.isNone_iff_eq_none, List.toFinset_filter, Finset.mem_filter]
  rw [hnew, List.toFinset_card_of_nodup ((nodup_inits path).filter _), List.countP_eq_length_filter]

/-- Reaching the end of a path adds its beginnings. -/
theorem reach (path : List Nibble) :
    (pool.reach root path).1.MadeOf (paths ∪ path.inits.toFinset) := by
  obtain ⟨htree, hgrows, hwalk⟩ :=
    reach_spec made.tree (show root < pool.size from made.tree.nonempty) path
  refine ⟨htree, fun start hstart => ?_, ?_⟩
  · rcases Finset.mem_union.mp hstart with hold | hnew
    · obtain ⟨id, hid⟩ := made.walks start hold
      exact ⟨id, hgrows.walk hid⟩
    · obtain ⟨rest, rfl⟩ := (List.mem_inits _ _).mp (List.mem_toFinset.mp hnew)
      rw [walk_append] at hwalk
      obtain ⟨id, hid, -⟩ := Option.bind_eq_some_iff.mp hwalk
      exact ⟨id, hid⟩
  · rw [size_reach, made.countP_inits, ← made.card, ← Finset.union_sdiff_self_eq_union,
      Finset.card_union_of_disjoint Finset.disjoint_sdiff]

theorem setValue (id : Nat) (value : Option RowHandle) :
    (pool.write id (·.setValue value)).MadeOf paths where
  tree := Trie.isTree_setValue made.tree id value
  walks path hpath := by
    rw [walk_write_setValue]
    exact made.walks path hpath
  card := by rw [size_write, made.card]

end MadeOf
end NodePool

/-! ## 3. The keys that are written -/

namespace Trie

/-- The keys that a call writes, whether it binds them or not. -/
def Call.written : Call → List Bytes
  | .edit (.put key _) => [key]
  | .edit (.putIfAbsent key _) => [key]
  | .edit (.remove _ _) => []
  | .get _ => []

/-- The keys that calls write. -/
def written (calls : List Call) : List Bytes := calls.flatMap Call.written

/-- The beginnings of the paths of keys, but for the empty one, which all paths have in common. -/
def beginnings (keys : List Bytes) : Finset (List Nibble) :=
  (keys.flatMap fun key => (digits key).inits).toFinset.erase []

theorem mem_beginnings {keys : List Bytes} {path : List Nibble} :
    path ∈ beginnings keys ↔ path ≠ [] ∧ ∃ key ∈ keys, path <+: digits key := by
  rw [beginnings, Finset.mem_erase, List.mem_toFinset, List.mem_flatMap]
  simp only [List.mem_inits]

/-- One more key adds the beginnings of its path. -/
theorem insert_beginnings_concat (keys : List Bytes) (key : Bytes) :
    insert [] (beginnings (keys ++ [key])) =
      insert [] (beginnings keys) ∪ (digits key).inits.toFinset := by
  ext path
  by_cases hpath : path = []
  · simp [hpath]
  · simp [hpath, mem_beginnings, or_and_right, exists_or]

/-- The trie has a node for each beginning of the path of a key, and for nothing else. -/
def MadeFor (trie : Trie) (keys : List Bytes) : Prop :=
  trie.pool.MadeOf (insert [] (beginnings keys))

theorem madeFor_empty : MadeFor {} [] := NodePool.madeOf_empty

section MadeFor

variable {trie : Trie} {keys : List Bytes} (made : trie.MadeFor keys)
include made

theorem MadeFor.reach (key : Bytes) :
    (trie.pool.reach NodePool.root (digits key)).1.MadeOf (insert [] (beginnings (keys ++ [key]))) := by
  rw [insert_beginnings_concat]
  exact NodePool.MadeOf.reach made (digits key)

theorem MadeFor.put (key : Bytes) (handle : RowHandle) :
    (trie.put key handle).1.MadeFor (keys ++ [key]) :=
  (made.reach key).setValue _ _

/-- A key whose owner stays has left its path nevertheless. -/
theorem MadeFor.putIfAbsent (key : Bytes) (handle : RowHandle) :
    (trie.putIfAbsent key handle).1.MadeFor (keys ++ [key]) := by
  rw [Trie.putIfAbsent]
  dsimp only
  split
  · exact made.reach key
  · exact (made.reach key).setValue _ _

theorem MadeFor.remove (key : Bytes) (expected : RowHandle) :
    (trie.remove key expected).1.MadeFor keys := by
  rw [Trie.remove]
  split
  · exact made
  · split
    · exact made.setValue _ _
    · exact made

theorem MadeFor.call (call : Call) : (trie.call call).1.MadeFor (keys ++ call.written) := by
  cases call with
  | edit edit =>
    cases edit with
    | put key handle => exact made.put key handle
    | putIfAbsent key handle => exact made.putIfAbsent key handle
    | remove key expected =>
      rw [Call.written, List.append_nil]
      exact made.remove key expected
  | get key =>
    rw [Call.written, List.append_nil]
    exact made

theorem MadeFor.calls (calls : List Call) : (trie.calls calls).1.MadeFor (keys ++ written calls) := by
  induction calls generalizing trie keys with
  | nil =>
    rw [written, List.flatMap_nil, List.append_nil]
    exact made
  | cons call rest ih =>
    have hrest := ih (made.call call)
    rw [List.append_assoc] at hrest
    exact hrest

end MadeFor

/-- The trie is a tree of digits that spells the beginnings of the paths of keys, each once. -/
structure IsNibbleTree (trie : Trie) (keys : List Bytes) : Prop where
  /-- What a slot made was handed out, and after the node that the slot belongs to. -/
  forward : ∀ {id child : Nat} {digit : Nibble}, trie.pool.child id digit = some child →
    id < child ∧ child < trie.nodeCount
  /-- Every node but the root is in exactly one slot. -/
  parent : ∀ {id : Nat}, id ≠ NodePool.root → id < trie.nodeCount →
    ∃! slot : Nat × Nibble, trie.pool.child slot.1 slot.2 = some id
  /-- A node spells one path. -/
  spells : ∀ {id : Nat}, id < trie.nodeCount → ∃! path, trie.pool.Names id path
  /-- Two nodes spell different paths. -/
  distinct : ∀ {a b : Nat} {path : List Nibble}, trie.pool.Names a path → trie.pool.Names b path → a = b
  /-- What is spelled is what the keys begin with. -/
  spelled : ∀ path, (∃ id, trie.pool.Names id path) ↔ path = [] ∨ path ∈ beginnings keys
  count : trie.nodeCount = 1 + (beginnings keys).card

theorem MadeFor.isNibbleTree {trie : Trie} {keys : List Bytes} (made : trie.MadeFor keys) :
    trie.IsNibbleTree keys where
  forward := made.tree.forward
  parent {id} hroot hid := by
    obtain ⟨path, -, hpath⟩ := made.exists_path hid
    cases NodePool.names_iff_walk.mpr hpath with
    | root => exact absurd rfl hroot
    | @child parent _ digit _ _ hslot =>
      refine ⟨(parent, digit), hslot, fun slot hother => ?_⟩
      obtain ⟨hid, hdigit⟩ := made.tree.once hother hslot
      exact Prod.ext hid hdigit
  spells {id} hid := by
    obtain ⟨path, -, hpath⟩ := made.exists_path hid
    refine ⟨path, NodePool.names_iff_walk.mpr hpath, fun other hother => ?_⟩
    exact made.tree.walk_root_injective (NodePool.names_iff_walk.mp hother) hpath
  distinct ha hb := Option.some.inj
    ((NodePool.names_iff_walk.mp ha).symm.trans (NodePool.names_iff_walk.mp hb))
  spelled path := by
    rw [← Finset.mem_insert, made.mem_iff]
    exact exists_congr fun id => NodePool.names_iff_walk
  count := by
    have hcard := made.card
    rw [Finset.card_insert_of_notMem fun h => (mem_beginnings.mp h).1 rfl] at hcard
    rw [nodeCount, ← hcard, Nat.add_comm]

/-- Whatever calls are made of a new trie, its nodes are a tree that spells the beginnings of the keys
written, and there are no others. -/
theorem calls_isNibbleTree (calls : List Call) :
    (({} : Trie).calls calls).1.IsNibbleTree (written calls) :=
  (madeFor_empty.calls calls).isNibbleTree

/-- Two keys with three digits in common; a refusal and a removal leave the nodes as they are. -/
example : (({} : Trie).calls [
      .edit (.put [0x61, 0x62] ⟨1, by decide, by decide⟩),
      .edit (.putIfAbsent [0x61, 0x62] ⟨2, by decide, by decide⟩),
      .edit (.remove [0x61, 0x62] ⟨1, by decide, by decide⟩),
      .edit (.put [0x61, 0x63] ⟨3, by decide, by decide⟩)]).1.nodeCount = 6 := by
  decide +kernel

end Trie
end SnapshotStore
