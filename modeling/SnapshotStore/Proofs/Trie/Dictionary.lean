import Mathlib
import SnapshotStore.Proofs.Maps
import SnapshotStore.Proofs.Trie.Queries

/-!
# A trie answers as a dictionary does

Paths share nodes, a node inside a path may hold a value of its own, and a key that is taken out leaves
its path behind. None of this can be told from the answers: whoever puts keys in, takes them out and
looks them up learns what a finite map of byte strings would say, and the number of keys is the size of
that map (`Trie.calls_eq_dictionary`). The map is kept in order by the keys and knows nothing of nibbles.

What a step has to keep is small (`Follows`): the pool is a tree, each key is bound to what the map has
under it, and the count is right. That a path belongs to one key alone is where the tree comes in.
-/

namespace SnapshotStore

/-! ## 1. Calls -/

namespace Trie

/-- What a trie is asked. -/
inductive Call where
  | edit (edit : Edit)
  | get (key : Bytes)

/-- What a trie answers. -/
inductive Result where
  /-- The key was unbound, and is bound now. -/
  | inserted
  /-- The key was bound to this row, and is bound to another one now. -/
  | updated (previous : RowHandle)
  /-- The key is bound to this row, and stays so. -/
  | owned (owner : RowHandle)
  | removed (removed : Bool)
  | found (handle? : Option RowHandle)
deriving DecidableEq

/-- Answers a call. -/
def call (trie : Trie) : Call → Trie × Result
  | .edit (.put key handle) =>
    let (trie, previous) := trie.put key handle
    (trie, previous.elim .inserted .updated)
  | .edit (.putIfAbsent key handle) =>
    let (trie, owner) := trie.putIfAbsent key handle
    (trie, owner.elim .inserted .owned)
  | .edit (.remove key expected) =>
    let (trie, removed) := trie.remove key expected
    (trie, .removed removed)
  | .get key => (trie, .found (trie.get? key))

/-- Answers one call after another; next to each answer stands how many keys are bound by then. -/
def calls (trie : Trie) : List Call → Trie × List (Result × Nat)
  | [] => (trie, [])
  | call :: rest =>
    let (trie, result) := trie.call call
    let (last, results) := trie.calls rest
    (last, (result, trie.size) :: results)

end Trie

/-- A finite map from byte strings to rows. -/
abbrev Dictionary := Std.ExtTreeMap Bytes RowHandle

namespace Dictionary

/-- Answers a call. A key is taken out only if it is bound to the row that is expected, and is never
bound anew by a call that asks for it to be absent. -/
def call (map : Dictionary) : Trie.Call → Dictionary × Trie.Result
  | .edit (.put key handle) =>
    (map.insert key handle, map[key]?.elim .inserted .updated)
  | .edit (.putIfAbsent key handle) =>
    match map[key]? with
    | none => (map.insert key handle, .inserted)
    | some owner => (map, .owned owner)
  | .edit (.remove key expected) =>
    if map[key]? = some expected then (map.erase key, .removed true) else (map, .removed false)
  | .get key => (map, .found map[key]?)

/-- Answers one call after another; next to each answer stands how many keys are bound by then. -/
def calls (map : Dictionary) : List Trie.Call → Dictionary × List (Trie.Result × Nat)
  | [] => (map, [])
  | call :: rest =>
    let (map, result) := map.call call
    let (last, results) := map.calls rest
    (last, (result, map.size) :: results)

/-- A key that was not there counts from then on. -/
theorem size_insert_eq (map : Dictionary) (key : Bytes) (handle : RowHandle) :
    (map.insert key handle).size = if map[key]? = none then map.size + 1 else map.size := by
  rw [Std.ExtTreeMap.size_insert, Std.ExtTreeMap.contains_eq_isSome_getElem?]
  cases map[key]? with
  | none => rfl
  | some handle' => rfl

/-- A key that is there counts no longer once it is taken out. -/
theorem size_erase_of_bound {map : Dictionary} {key : Bytes} {handle : RowHandle}
    (bound : map[key]? = some handle) : (map.erase key).size = map.size - 1 := by
  rw [Std.ExtTreeMap.size_erase, Std.ExtTreeMap.contains_eq_isSome_getElem?, bound]
  rfl

end Dictionary

/-! ## 2. The trie follows the dictionary -/

namespace Trie

/-- The trie is a tree in which the keys of the map are bound as they are there. -/
structure Follows (trie : Trie) (map : Dictionary) : Prop where
  tree : trie.pool.IsTree
  get : ∀ key : Bytes, trie.get? key = map[key]?
  size : trie.size = map.size

theorem follows_empty : Follows {} ∅ where
  tree := NodePool.isTree_empty
  get key := by rw [get?_empty, Std.ExtTreeMap.getElem?_empty]
  size := rfl

variable {trie : Trie} {map : Dictionary} (follows : trie.Follows map)
include follows

theorem Follows.put (key : Bytes) (handle : RowHandle) :
    (trie.put key handle).1.Follows (map.insert key handle) ∧
      (trie.put key handle).2 = map[key]? := by
  obtain ⟨htree, _, hprevious, hget⟩ := put_spec follows.tree key handle
  refine ⟨⟨htree, fun other => ?_, ?_⟩, hprevious.trans (follows.get key)⟩
  · rw [hget, Maps.get_insert, follows.get]
  · rw [size_put follows.tree, Dictionary.size_insert_eq, follows.get, follows.size]

/-- A key that is there stays as it is, although its path may be new. -/
theorem Follows.putIfAbsent_bound {key : Bytes} {owner : RowHandle} (bound : map[key]? = some owner)
    (handle : RowHandle) : (trie.putIfAbsent key handle).1.Follows map ∧
      (trie.putIfAbsent key handle).2 = some owner := by
  have hbound : trie.get? key = some owner := (follows.get key).trans bound
  obtain ⟨htree, _, howner, hget⟩ := putIfAbsent_spec follows.tree key handle
  refine ⟨⟨htree, fun other => ?_, ?_⟩, howner.trans hbound⟩
  · rw [hget, hbound, Option.getD_some, follows.get]
    split
    · rename_i heq
      rw [heq, bound]
    · rfl
  · rw [size_putIfAbsent follows.tree, hbound, if_neg (Option.some_ne_none owner), follows.size]

theorem Follows.putIfAbsent_unbound {key : Bytes} (unbound : map[key]? = none)
    (handle : RowHandle) : (trie.putIfAbsent key handle).1.Follows (map.insert key handle) ∧
      (trie.putIfAbsent key handle).2 = none := by
  have hunbound : trie.get? key = none := (follows.get key).trans unbound
  obtain ⟨htree, _, howner, hget⟩ := putIfAbsent_spec follows.tree key handle
  refine ⟨⟨htree, fun other => ?_, ?_⟩, howner.trans hunbound⟩
  · rw [hget, hunbound, Option.getD_none, Maps.get_insert, follows.get]
  · rw [size_putIfAbsent follows.tree, hunbound, if_pos rfl, Dictionary.size_insert_eq, if_pos unbound,
      follows.size]

theorem Follows.remove_bound {key : Bytes} {expected : RowHandle} (bound : map[key]? = some expected) :
    (trie.remove key expected).1.Follows (map.erase key) ∧
      (trie.remove key expected).2 = true := by
  have hbound : trie.get? key = some expected := (follows.get key).trans bound
  obtain ⟨htree, _, hremoved, hget⟩ := remove_spec follows.tree key expected
  refine ⟨⟨htree, fun other => ?_, ?_⟩, hremoved.mpr hbound⟩
  · rw [hget, Maps.get_erase, follows.get other]
    exact if_congr (and_iff_left hbound) rfl rfl
  · rw [size_remove, if_pos hbound, Dictionary.size_erase_of_bound bound, follows.size]

/-- A key that is not bound to the row that is expected stays as it is. -/
theorem Follows.remove_other {key : Bytes} {expected : RowHandle}
    (other : map[key]? ≠ some expected) : (trie.remove key expected).1.Follows map ∧
      (trie.remove key expected).2 = false := by
  have hother : trie.get? key ≠ some expected := fun h => other ((follows.get key).symm.trans h)
  obtain ⟨htree, _, hremoved, hget⟩ := remove_spec follows.tree key expected
  refine ⟨⟨htree, fun key' => ?_, ?_⟩, Bool.eq_false_iff.mpr fun h => hother (hremoved.mp h)⟩
  · rw [hget, if_neg fun h => hother h.2, follows.get]
  · rw [size_remove, if_neg hother, follows.size]

/-- A call is answered as by the map, and the trie goes on following it. -/
theorem Follows.call (call : Call) :
    (trie.call call).1.Follows (map.call call).1 ∧ (trie.call call).2 = (map.call call).2 := by
  cases call with
  | edit edit =>
    cases edit with
    | put key handle =>
      obtain ⟨hfollows, hprevious⟩ := follows.put key handle
      exact ⟨hfollows, congrArg (Option.elim · _ _) hprevious⟩
    | putIfAbsent key handle =>
      rw [Dictionary.call]
      cases hbound : map[key]? with
      | none =>
        obtain ⟨hfollows, howner⟩ := follows.putIfAbsent_unbound hbound handle
        exact ⟨hfollows, congrArg (Option.elim · _ _) howner⟩
      | some owner =>
        obtain ⟨hfollows, howner⟩ := follows.putIfAbsent_bound hbound handle
        exact ⟨hfollows, congrArg (Option.elim · _ _) howner⟩
    | remove key expected =>
      rw [Dictionary.call]
      by_cases hbound : map[key]? = some expected
      · obtain ⟨hfollows, hremoved⟩ := follows.remove_bound hbound
        rw [if_pos hbound]
        exact ⟨hfollows, congrArg _ hremoved⟩
      · obtain ⟨hfollows, hremoved⟩ := follows.remove_other hbound
        rw [if_neg hbound]
        exact ⟨hfollows, congrArg _ hremoved⟩
  | get key => exact ⟨follows, congrArg _ (follows.get key)⟩

theorem Follows.calls (calls : List Call) :
    (trie.calls calls).1.Follows (map.calls calls).1 ∧
      (trie.calls calls).2 = (map.calls calls).2 := by
  induction calls generalizing trie map with
  | nil => exact ⟨follows, rfl⟩
  | cons call rest ih =>
    obtain ⟨hfollows, hresult⟩ := follows.call call
    obtain ⟨hlast, hresults⟩ := ih hfollows
    refine ⟨hlast, ?_⟩
    rw [Trie.calls, Dictionary.calls]
    dsimp only
    rw [hresult, hfollows.size, hresults]

omit follows

/-- Whatever calls are made of a new trie, the answers and the numbers of keys are those of a finite map
that is empty at first, and in the end the trie holds what the map holds. -/
theorem calls_eq_dictionary (calls : List Call) :
    (({} : Trie).calls calls).2 = ((∅ : Dictionary).calls calls).2 ∧
      (({} : Trie).calls calls).1.size = ((∅ : Dictionary).calls calls).1.size ∧
      ∀ key, (({} : Trie).calls calls).1.get? key = ((∅ : Dictionary).calls calls).1[key]? := by
  obtain ⟨hfollows, hresults⟩ := follows_empty.calls calls
  exact ⟨hresults, hfollows.size, hfollows.get⟩

/-- The empty key, a key below it, and refusals. -/
example : (({} : Trie).calls [
      .edit (.put [1] ⟨5, by decide, by decide⟩), .edit (.putIfAbsent [] ⟨6, by decide, by decide⟩),
      .edit (.putIfAbsent [] ⟨5, by decide, by decide⟩),
      .edit (.remove [1] ⟨6, by decide, by decide⟩),
      .edit (.remove [1] ⟨5, by decide, by decide⟩), .get []]).2 =
    [(.inserted, 1), (.inserted, 2), (.owned ⟨6, by decide, by decide⟩, 2), (.removed false, 2),
      (.removed true, 1), (.found (some ⟨6, by decide, by decide⟩), 1)] := by
  decide +kernel

end Trie
end SnapshotStore
