import Mathlib
import SnapshotStore.Proofs.Trie.NodePool

/-!
# Tries are finite maps

What `put`, `putIfAbsent` and `remove` do, said through `get?` alone. Each of them reaches the node
of its key and writes its value there; the node is nobody else's, because paths are unique and a
path determines its key.

`Extends` is the other half of what an operation leaves in place: links. A cursor that rests on an
entry knows nodes by number and the slots between them, and links that stay are all it depends on.
-/

namespace SnapshotStore
namespace Trie

/-! ## 1. Keys and nodes -/

theorem digits_injective {a b : Bytes} (h : digits a = digits b) : a = b := by
  rw [← spelled_digits a, h, spelled_digits]

/-- The links of one trie are all in another. -/
structure Extends (trie larger : Trie) : Prop where
  keeps : ∀ {id child : Nat} {digit : Nibble}, trie.pool.child id digit = some child →
    larger.pool.child id digit = some child

theorem Extends.refl (trie : Trie) : trie.Extends trie := ⟨fun h => h⟩

theorem Extends.trans {a b c : Trie} (hab : a.Extends b) (hbc : b.Extends c) : a.Extends c :=
  ⟨fun h => hbc.keeps (hab.keeps h)⟩

/-- What is known once the node of a key has been reached. -/
theorem reach_key {trie : Trie} (tree : trie.pool.IsTree) (key : Bytes) :
    let reached := trie.pool.reach NodePool.root (digits key)
    reached.1.IsTree ∧ NodePool.Grows trie.pool reached.1 ∧ reached.2 < reached.1.size ∧
      (reached.1.get reached.2).value = trie.get? key ∧
      ∀ other, reached.1.walk NodePool.root (digits other) = some reached.2 ↔ other = key := by
  intro reached
  obtain ⟨htree, hgrows, hwalk⟩ :=
    NodePool.reach_spec tree (show NodePool.root < trie.pool.size from tree.nonempty) (digits key)
  refine ⟨htree, hgrows, ?_, ?_, ?_⟩
  · exact htree.walk_lt htree.nonempty hwalk
  · have hlookup := hgrows.lookup_eq htree NodePool.root (digits key)
    rw [hwalk, Option.bind_some] at hlookup
    exact hlookup
  · intro other
    constructor
    · intro h
      exact digits_injective (htree.walk_root_injective h hwalk)
    · rintro rfl
      exact hwalk

/-- Setting the value of a node changes what is found under the keys that end there. -/
theorem get?_setValue {pool : NodePool} {id : Nat} (hid : id < pool.size)
    (value : Option RowHandle) (size : Nat) (key : Bytes) :
    Trie.get? ⟨pool.write id (·.setValue value), size⟩ key =
      if pool.walk NodePool.root (digits key) = some id then value
      else (pool.walk NodePool.root (digits key)).bind fun last => (pool.get last).value := by
  unfold Trie.get?
  simp only [NodePool.walk_write_setValue]
  cases hend : pool.walk NodePool.root (digits key) with
  | none => rfl
  | some last =>
    rw [Option.bind_some, NodePool.value_write_setValue hid, Option.bind_some]
    by_cases heq : last = id
    · rw [if_pos heq, if_pos (by rw [heq])]
    · rw [if_neg heq, if_neg (fun h => heq (Option.some.inj h))]

theorem isTree_setValue {pool : NodePool} (tree : pool.IsTree) (id : Nat)
    (value : Option RowHandle) : (pool.write id (·.setValue value)).IsTree := by
  refine ⟨?_, ?_, ?_⟩
  · rw [NodePool.size_write]
    exact tree.nonempty
  · intro a c digit h
    rw [NodePool.child_write_setValue] at h
    rw [NodePool.size_write]
    exact tree.forward h
  · intro a b c da db ha hb
    rw [NodePool.child_write_setValue] at ha hb
    exact tree.once ha hb

/-- Setting a value takes no link away. -/
theorem extends_setValue {trie : Trie} {pool : NodePool}
    (keeps : ∀ {id child : Nat} {digit : Nibble}, trie.pool.child id digit = some child →
      pool.child id digit = some child) (id : Nat) (value : Option RowHandle) (size : Nat) :
    trie.Extends ⟨pool.write id (·.setValue value), size⟩ where
  keeps h := by
    rw [NodePool.child_write_setValue]
    exact keeps h

/-- Unbinding a key changes no link. -/
theorem child_remove (trie : Trie) (key : Bytes) (handle : RowHandle) (id : Nat) (digit : Nibble) :
    (trie.remove key handle).1.pool.child id digit = trie.pool.child id digit := by
  rw [remove]
  split
  · rfl
  · split
    · exact NodePool.child_write_setValue _ _ _ _ _
    · rfl

/-- A key that is unbound counts no longer. -/
theorem size_remove (trie : Trie) (key : Bytes) (handle : RowHandle) :
    (trie.remove key handle).1.size =
      if trie.get? key = some handle then trie.size - 1 else trie.size := by
  rw [remove, get?]
  cases trie.pool.walk NodePool.root (digits key) with
  | none => rfl
  | some id =>
    dsimp only [Option.bind_some]
    split <;> rfl

/-! ## 2. The operations -/

section Operations

variable {trie : Trie} (tree : trie.pool.IsTree) (key : Bytes) (handle : RowHandle)
include tree

theorem put_spec :
    (trie.put key handle).1.pool.IsTree ∧ trie.Extends (trie.put key handle).1 ∧
      (trie.put key handle).2 = trie.get? key ∧
      ∀ other, (trie.put key handle).1.get? other =
        if other = key then some handle else trie.get? other := by
  obtain ⟨htree, hgrows, hlt, hvalue, hpath⟩ := reach_key tree key
  refine ⟨isTree_setValue htree _ _, extends_setValue hgrows.keeps _ _ _, hvalue, ?_⟩
  intro other
  rw [put, get?_setValue hlt]
  simp only [hpath, hgrows.lookup_eq htree]
  rfl

theorem putIfAbsent_spec :
    (trie.putIfAbsent key handle).1.pool.IsTree ∧ trie.Extends (trie.putIfAbsent key handle).1 ∧
      (trie.putIfAbsent key handle).2 = trie.get? key ∧
      ∀ other, (trie.putIfAbsent key handle).1.get? other =
        if other = key then some ((trie.get? key).getD handle) else trie.get? other := by
  obtain ⟨htree, hgrows, hlt, hvalue, hpath⟩ := reach_key tree key
  have hlookup := fun other => hgrows.lookup_eq htree NodePool.root (digits other)
  rw [putIfAbsent]
  cases hget : trie.get? key with
  | some owner =>
    rw [hget] at hvalue
    simp only [hvalue]
    refine ⟨htree, ⟨fun h => hgrows.keeps h⟩, trivial, ?_⟩
    intro other
    have hsame : Trie.get? { trie with pool := (trie.pool.reach NodePool.root (digits key)).1 } other =
        trie.get? other := hlookup other
    rw [hsame]
    by_cases heq : other = key
    · rw [if_pos heq, heq, hget]
      rfl
    · rw [if_neg heq]
  | none =>
    rw [hget] at hvalue
    simp only [hvalue]
    refine ⟨isTree_setValue htree _ _, extends_setValue hgrows.keeps _ _ _, trivial, ?_⟩
    intro other
    rw [get?_setValue hlt]
    simp only [hpath, hlookup]
    rfl

/-- A key that was not bound counts from then on. -/
theorem size_put : (trie.put key handle).1.size =
    if trie.get? key = none then trie.size + 1 else trie.size := by
  obtain ⟨_, _, _, hvalue, _⟩ := reach_key tree key
  rw [← hvalue, put]
  simp only [Option.isNone_iff_eq_none]

theorem size_putIfAbsent : (trie.putIfAbsent key handle).1.size =
    if trie.get? key = none then trie.size + 1 else trie.size := by
  obtain ⟨_, _, _, hvalue, _⟩ := reach_key tree key
  rw [← hvalue, putIfAbsent]
  dsimp only
  split
  · rename_i hbound
    rw [hbound, if_neg (Option.some_ne_none _)]
  · rename_i hfree
    rw [hfree, if_pos rfl]

theorem remove_spec :
    (trie.remove key handle).1.pool.IsTree ∧ trie.Extends (trie.remove key handle).1 ∧
      ((trie.remove key handle).2 = true ↔ trie.get? key = some handle) ∧
      ∀ other, (trie.remove key handle).1.get? other =
        if other = key ∧ trie.get? key = some handle then none else trie.get? other := by
  rw [remove]
  cases hwalk : trie.pool.walk NodePool.root (digits key) with
  | none =>
    have hget : trie.get? key = none := by rw [get?, hwalk]; rfl
    refine ⟨tree, Extends.refl _, ?_, ?_⟩
    · rw [hget]
      simp
    · intro other
      rw [hget]
      simp
  | some id =>
    have hget : trie.get? key = (trie.pool.get id).value := by rw [get?, hwalk]; rfl
    by_cases hbound : (trie.pool.get id).value = some handle
    · rw [← hget] at hbound
      simp only [← hget, hbound, if_true, and_true]
      refine ⟨isTree_setValue tree _ _, extends_setValue (fun h => h) _ _ _, trivial, ?_⟩
      intro other
      rw [get?_setValue (tree.walk_lt tree.nonempty hwalk)]
      by_cases heq : other = key
      · rw [if_pos heq, heq, if_pos hwalk]
      · rw [if_neg heq, if_neg]
        · rfl
        · intro h
          exact heq (digits_injective (tree.walk_root_injective h hwalk))
    · rw [← hget] at hbound
      simp only [← hget, hbound, if_false, and_false]
      exact ⟨tree, Extends.refl _, by simp, fun _ => trivial⟩

/-- What was removed is not found any more. -/
theorem get?_remove_ne : (trie.remove key handle).1.get? key ≠ some handle := by
  obtain ⟨_, _, _, hget⟩ := remove_spec tree key handle
  intro hbound
  rw [hget] at hbound
  split at hbound
  · cases hbound
  · rename_i hnot
    exact hnot ⟨rfl, hbound⟩

end Operations

@[simp] theorem get?_empty (key : Bytes) : ({} : Trie).get? key = none := by
  unfold get?
  cases hwalk : ({} : Trie).pool.walk NodePool.root (digits key) with
  | none => rfl
  | some id =>
    have hlt := NodePool.isTree_empty.walk_lt NodePool.isTree_empty.nonempty hwalk
    have hzero : id = 0 := Nat.lt_one_iff.mp hlt
    rw [hzero]
    rfl

end Trie
end SnapshotStore
