import Mathlib
import SnapshotStore.Trie.Basic

/-!
# Node pools are trees

A pool links its nodes by number, so that it is a tree has to be said: a link leads to a later node
that exists, and no two links lead to the same node (`IsTree`). Then a node is reached from the root
by one path at most, and what is written at the end of one path is not seen at the end of another.

A trie never takes a link away and never moves a node. `Grows` says what a pool may become while
paths are created: links stay, nodes that were there get no new way to them, and values are as they
were. Everything about creating a path is derived from it.
-/

namespace SnapshotStore
namespace NodePool

/-! ## 1. What a write changes -/

@[simp] theorem size_write (pool : NodePool) (id : Nat) (f : Node → Node) :
    (pool.write id f).size = pool.size := by
  simp [write, modify, size]

@[simp] theorem size_alloc (pool : NodePool) (node : Node) : (pool.alloc node).1.size = pool.size + 1 := by
  simp [alloc, size]

theorem get_write (pool : NodePool) (id other : Nat) (f : Node → Node) :
    (pool.write id f).get other =
      if other = id ∧ id < pool.size then (pool.get id).write f else pool.get other := by
  simp only [write, modify, get, size, Array.getElem?_modify]
  by_cases heq : id = other
  · subst heq
    by_cases hlt : id < pool.nodes.size
    · simp [hlt]
    · simp [hlt]
  · simp [heq, Ne.symm heq]

theorem get_alloc (pool : NodePool) (node : Node) (id : Nat) :
    (pool.alloc node).1.get id = if id = pool.size then node else pool.get id := by
  unfold alloc get
  rw [Array.getElem?_push]
  by_cases h : id = pool.size
  · rw [if_pos h, if_pos (show id = pool.nodes.size from h)]
    rfl
  · rw [if_neg h, if_neg (show ¬ id = pool.nodes.size from h)]

theorem get_of_size_le {pool : NodePool} {id : Nat} (h : pool.size ≤ id) : pool.get id = {} := by
  rw [get, Array.getElem?_eq_none h]
  rfl

@[simp] theorem child_blank (digit : Nibble) : ({} : Node).child digit = none := by
  simp [Node.child]

theorem child_setChild (node : Node) (digit other : Nibble) (child : Option Nat) :
    (node.setChild digit child).child other = if other = digit then child else node.child other := by
  simp only [Node.child, Node.setChild, Fin.getElem_fin, Vector.getElem_set]
  by_cases h : other = digit
  · simp [h]
  · have hval : (digit : Nat) ≠ other := fun hv => h (Fin.ext hv.symm)
    simp [h, hval]

theorem child_write_setValue (pool : NodePool) (id other : Nat) (value : Option RowHandle)
    (digit : Nibble) : (pool.write id (·.setValue value)).child other digit = pool.child other digit := by
  unfold child
  rw [get_write]
  split
  · rename_i h
    rw [h.1]
    rfl
  · rfl

theorem value_write_setValue {pool : NodePool} {id : Nat} (h : id < pool.size) (other : Nat)
    (value : Option RowHandle) :
    ((pool.write id (·.setValue value)).get other).value =
      if other = id then value else (pool.get other).value := by
  rw [get_write]
  by_cases heq : other = id
  · rw [if_pos ⟨heq, h⟩, if_pos heq]
    rfl
  · rw [if_neg (fun hc => heq hc.1), if_neg heq]

theorem child_write_setChild {pool : NodePool} {id : Nat} (h : id < pool.size) (other : Nat)
    (digit digit' : Nibble) (child : Option Nat) :
    (pool.write id (·.setChild digit child)).child other digit' =
      if other = id ∧ digit' = digit then child else pool.child other digit' := by
  unfold NodePool.child
  rw [get_write]
  by_cases heq : other = id
  · subst heq
    rw [if_pos ⟨rfl, h⟩]
    have hw : ((pool.get other).write (·.setChild digit child)).child digit' =
        ((pool.get other).setChild digit child).child digit' := rfl
    rw [hw, child_setChild]
    by_cases hd : digit' = digit
    · simp [hd]
    · simp [hd]
  · rw [if_neg (fun hc => heq hc.1), if_neg (fun hc => heq hc.1)]

theorem value_write_setChild (pool : NodePool) (id other : Nat) (digit : Nibble)
    (child : Option Nat) :
    ((pool.write id (·.setChild digit child)).get other).value = (pool.get other).value := by
  rw [get_write]
  split
  · rename_i h
    rw [h.1]
    rfl
  · rfl

/-! ## 2. Trees and paths -/

/-- Links lead to later nodes, and no node is linked twice. -/
structure IsTree (pool : NodePool) : Prop where
  nonempty : 0 < pool.size
  forward : ∀ {id child : Nat} {digit}, pool.child id digit = some child → id < child ∧ child < pool.size
  once : ∀ {id id' child : Nat} {digit digit'}, pool.child id digit = some child →
    pool.child id' digit' = some child → id = id' ∧ digit = digit'

theorem isTree_empty : IsTree empty := by
  have hnone : ∀ (id : Nat) digit, empty.child id digit = none := by
    intro id digit
    unfold child get empty
    cases id with
    | zero => exact child_blank digit
    | succ id => exact child_blank digit
  refine ⟨by decide, ?_, ?_⟩
  · intro id child digit h
    rw [hnone] at h
    cases h
  · intro id id' child digit digit' h
    rw [hnone] at h
    cases h

@[simp] theorem walk_nil (pool : NodePool) (id : Nat) : pool.walk id [] = some id := rfl

theorem walk_cons (pool : NodePool) (id : Nat) (digit : Nibble) (path : List Nibble) :
    pool.walk id (digit :: path) = (pool.child id digit).bind fun child => pool.walk child path := rfl

theorem walk_append (pool : NodePool) (id : Nat) (p q : List Nibble) :
    pool.walk id (p ++ q) = (pool.walk id p).bind fun last => pool.walk last q := by
  induction p generalizing id with
  | nil => rfl
  | cons digit p ih =>
    rw [List.cons_append, walk_cons, walk_cons]
    cases pool.child id digit with
    | none => rfl
    | some child => exact ih child

theorem walk_concat (pool : NodePool) (id : Nat) (path : List Nibble) (digit : Nibble) :
    pool.walk id (path ++ [digit]) = (pool.walk id path).bind fun last => pool.child last digit := by
  rw [walk_append]
  congr 1
  funext last
  rw [walk_cons]
  cases pool.child last digit <;> rfl

/-- Values are no part of the paths. -/
theorem walk_write_setValue (pool : NodePool) (id start : Nat) (value : Option RowHandle)
    (path : List Nibble) :
    (pool.write id (·.setValue value)).walk start path = pool.walk start path := by
  induction path generalizing start with
  | nil => rfl
  | cons digit path ih =>
    rw [walk_cons, walk_cons, child_write_setValue]
    congr 1
    funext child
    exact ih child

namespace IsTree

variable {pool : NodePool} (tree : pool.IsTree)
include tree

theorem le_of_walk {id last : Nat} {path : List Nibble} (h : pool.walk id path = some last) :
    id + path.length ≤ last := by
  induction path generalizing id with
  | nil =>
    cases h
    exact Nat.le_refl _
  | cons digit path ih =>
    obtain ⟨child, hchild, hrest⟩ := Option.bind_eq_some_iff.mp h
    have hlt := (tree.forward hchild).1
    have hle := ih hrest
    rw [List.length_cons]
    omega

theorem walk_lt {id last : Nat} {path : List Nibble} (hid : id < pool.size)
    (h : pool.walk id path = some last) : last < pool.size := by
  induction path generalizing id with
  | nil =>
    cases h
    exact hid
  | cons digit path ih =>
    obtain ⟨child, hchild, hrest⟩ := Option.bind_eq_some_iff.mp h
    exact ih (tree.forward hchild).2 hrest

/-- A node is reached from the root by one path at most. -/
theorem walk_root_injective {p q : List Nibble} {last : Nat}
    (hp : pool.walk root p = some last) (hq : pool.walk root q = some last) : p = q := by
  -- From the ends of both paths, since a node is the child of one node and by one digit.
  induction p using List.reverseRecOn generalizing q last with
  | nil =>
    cases hp
    cases q using List.reverseRecOn with
    | nil => rfl
    | append_singleton q digit =>
      have hlen := tree.le_of_walk hq
      rw [List.length_append, List.length_singleton] at hlen
      omega
  | append_singleton p digit ih =>
    cases q using List.reverseRecOn with
    | nil =>
      cases hq
      have hlen := tree.le_of_walk hp
      rw [List.length_append, List.length_singleton] at hlen
      omega
    | append_singleton q digit' =>
      rw [walk_concat] at hp hq
      obtain ⟨a, ha, hchild⟩ := Option.bind_eq_some_iff.mp hp
      obtain ⟨b, hb, hchild'⟩ := Option.bind_eq_some_iff.mp hq
      obtain ⟨rfl, rfl⟩ := tree.once hchild hchild'
      rw [ih ha hb]

end IsTree

/-! ## 3. Growth -/

/-- What a pool may become while paths are created in it. -/
structure Grows (pool grown : NodePool) : Prop where
  size_le : pool.size ≤ grown.size
  keeps : ∀ {id child : Nat} {digit}, pool.child id digit = some child → grown.child id digit = some child
  adds : ∀ {id child : Nat} {digit}, grown.child id digit = some child → child < pool.size →
    pool.child id digit = some child
  value : ∀ id : Nat, (grown.get id).value = (pool.get id).value

namespace Grows

theorem refl (pool : NodePool) : Grows pool pool :=
  ⟨Nat.le_refl _, fun h => h, fun h _ => h, fun _ => rfl⟩

theorem trans {a b c : NodePool} (hab : Grows a b) (hbc : Grows b c) : Grows a c where
  size_le := Nat.le_trans hab.size_le hbc.size_le
  keeps h := hbc.keeps (hab.keeps h)
  adds h hlt := hab.adds (hbc.adds h (Nat.lt_of_lt_of_le hlt hab.size_le)) hlt
  value id := (hbc.value id).trans (hab.value id)

variable {pool grown : NodePool} (grows : Grows pool grown)
include grows

theorem walk {id last : Nat} {path : List Nibble} (h : pool.walk id path = some last) :
    grown.walk id path = some last := by
  induction path generalizing id with
  | nil => exact h
  | cons digit path ih =>
    obtain ⟨child, hchild, hrest⟩ := Option.bind_eq_some_iff.mp h
    rw [walk_cons, grows.keeps hchild]
    exact ih hrest

/-- A path to a node that was there before was there before. -/
theorem walk_back (tree : grown.IsTree) {id last : Nat} {path : List Nibble}
    (h : grown.walk id path = some last) (hlt : last < pool.size) :
    pool.walk id path = some last := by
  induction path using List.reverseRecOn generalizing last with
  | nil => exact h
  | append_singleton path digit ih =>
    rw [walk_concat] at h ⊢
    obtain ⟨middle, hmiddle, hchild⟩ := Option.bind_eq_some_iff.mp h
    have hmiddle_lt : middle < pool.size := Nat.lt_trans (tree.forward hchild).1 hlt
    rw [ih hmiddle hmiddle_lt, Option.bind_some, grows.adds hchild hlt]

/-- New paths hold nothing, so what is found at the end of a path does not change. -/
theorem lookup_eq (tree : grown.IsTree) (id : Nat) (path : List Nibble) :
    ((grown.walk id path).bind fun last => (grown.get last).value) =
      (pool.walk id path).bind fun last => (pool.get last).value := by
  cases hold : pool.walk id path with
  | some last => rw [grows.walk hold, Option.bind_some, Option.bind_some, grows.value]
  | none =>
    cases hnew : grown.walk id path with
    | none => rfl
    | some last =>
      by_cases hlt : last < pool.size
      · rw [grows.walk_back tree hnew hlt] at hold
        cases hold
      · rw [Option.bind_some, grows.value, get_of_size_le (Nat.le_of_not_lt hlt)]
        rfl

end Grows

/-! ## 4. Creating a path -/

/-- The nodes that spell a path are new, and each leads to the next and nowhere else. -/
structure Spells (pool spelled : NodePool) (path : List Nibble) (last : Nat) : Prop where
  size_eq : spelled.size = pool.size + path.length + 1
  old : ∀ {id : Nat}, id < pool.size → spelled.get id = pool.get id
  next : ∀ {id child : Nat} {digit}, pool.size ≤ id → spelled.child id digit = some child →
    child = id + 1 ∧ child < spelled.size ∧ ∀ digit', spelled.child id digit' = some child → digit' = digit
  blank : ∀ {id : Nat}, pool.size ≤ id → (spelled.get id).value = none
  walk : spelled.walk pool.size path = some last

/-- A blank node spells the empty path. -/
theorem spells_alloc (pool : NodePool) : Spells pool (pool.alloc).1 [] pool.size := by
  have hblank : ∀ {id : Nat}, pool.size ≤ id → (pool.alloc).1.get id = {} := by
    intro id hid
    rw [get_alloc]
    split
    · rfl
    · exact get_of_size_le hid
  refine ⟨size_alloc _ _, ?_, ?_, ?_, rfl⟩
  · intro id hid
    rw [get_alloc, if_neg (Nat.ne_of_lt hid)]
  · intro id child digit hid h
    change ((pool.alloc).1.get id).child digit = some child at h
    rw [hblank hid, child_blank] at h
    cases h
  · intro id hid
    rw [hblank hid]

/-- A node that leads to the first node of a path spells one digit more. -/
theorem Spells.cons {pool spelled : NodePool} {digit : Nibble} {rest : List Nibble} {last : Nat}
    (spells : Spells (pool.alloc (({} : Node).setChild digit (some (pool.size + 1)))).1 spelled rest
      last) : Spells pool spelled (digit :: rest) last := by
  have hsize := spells.size_eq
  have hold := fun {id : Nat} => @spells.old id
  have hwalk := spells.walk
  rw [size_alloc] at hsize hwalk
  rw [size_alloc] at hold
  have hget : spelled.get pool.size = ({} : Node).setChild digit (some (pool.size + 1)) := by
    rw [hold (Nat.lt_succ_self _), get_alloc, if_pos rfl]
  have htop : ∀ digit', spelled.child pool.size digit' =
      if digit' = digit then some (pool.size + 1) else none := by
    intro digit'
    unfold child
    rw [hget, child_setChild, child_blank]
  refine ⟨?_, ?_, ?_, ?_, ?_⟩
  · rw [hsize, List.length_cons]
    omega
  · intro id hid
    rw [hold (Nat.lt_succ_of_lt hid), get_alloc, if_neg (Nat.ne_of_lt hid)]
  · intro id child digit' hid h
    rcases Nat.eq_or_lt_of_le hid with rfl | hlt
    · -- The first node leads nowhere but to the second.
      rw [htop] at h
      split at h
      · rename_i hdigit
        cases h
        refine ⟨rfl, by omega, fun other hother => ?_⟩
        rw [htop] at hother
        split at hother
        · rename_i hother'
          rw [hdigit, hother']
        · cases hother
      · cases h
    · exact spells.next (by rw [size_alloc]; exact hlt) h
  · intro id hid
    rcases Nat.eq_or_lt_of_le hid with rfl | hlt
    · rw [hget]
      rfl
    · exact spells.blank (by rw [size_alloc]; exact hlt)
  · rw [walk_cons, htop, if_pos rfl, Option.bind_some]
    exact hwalk

theorem spell_spec (pool : NodePool) (path : List Nibble) :
    (pool.spell path).2.1 = pool.size ∧
      Spells pool (pool.spell path).1 path (pool.spell path).2.2 := by
  induction path generalizing pool with
  | nil => exact ⟨rfl, spells_alloc pool⟩
  | cons digit rest ih => exact ⟨rfl, (ih _).2.cons⟩

section Hang

variable {pool spelled : NodePool} {path : List Nibble} {last id : Nat} {digit : Nibble}
  (spells : Spells pool spelled path last)
include spells

theorem Spells.child_old {other : Nat} (hlt : other < pool.size) (digit' : Nibble) :
    spelled.child other digit' = pool.child other digit' := by
  unfold child
  rw [spells.old hlt]

theorem Spells.child_hung (hid : id < pool.size) (other : Nat) (digit' : Nibble) :
    (spelled.write id (·.setChild digit (some pool.size))).child other digit' =
      if other = id ∧ digit' = digit then some pool.size else spelled.child other digit' := by
  have hid' : id < spelled.size := by rw [spells.size_eq]; omega
  exact child_write_setChild hid' other digit digit' _

/-- A link is the one that was hung, an old link, or a step along the new path. -/
theorem Spells.hung_cases (hid : id < pool.size) {other child : Nat} {digit' : Nibble}
    (h : (spelled.write id (·.setChild digit (some pool.size))).child other digit' = some child) :
    (other = id ∧ digit' = digit ∧ child = pool.size) ∨
      (other < pool.size ∧ pool.child other digit' = some child) ∨
      (pool.size ≤ other ∧ spelled.child other digit' = some child) := by
  rw [spells.child_hung hid] at h
  split at h
  · rename_i heq
    cases h
    exact Or.inl ⟨heq.1, heq.2, rfl⟩
  · rcases Nat.lt_or_ge other pool.size with hlt | hge
    · exact Or.inr (Or.inl ⟨hlt, by rw [← spells.child_old hlt]; exact h⟩)
    · exact Or.inr (Or.inr ⟨hge, h⟩)

/-- Hanging a spelled path on a node keeps the tree a tree. -/
theorem Spells.isTree_hung (tree : pool.IsTree) (hid : id < pool.size) :
    (spelled.write id (·.setChild digit (some pool.size))).IsTree := by
  refine ⟨?_, ?_, ?_⟩
  · rw [size_write, spells.size_eq]
    omega
  · intro other c digit' h
    rw [size_write]
    rcases spells.hung_cases hid h with ⟨rfl, -, rfl⟩ | ⟨hlt, hc⟩ | ⟨hge, hc⟩
    · exact ⟨hid, by rw [spells.size_eq]; omega⟩
    · have hf := tree.forward hc
      exact ⟨hf.1, by rw [spells.size_eq]; omega⟩
    · obtain ⟨rfl, hlt, -⟩ := spells.next hge hc
      exact ⟨Nat.lt_succ_self _, hlt⟩
  · -- Links of different kinds lead to different nodes: an old link to an old one, the one that was
    -- hung to the first new one, and a step along the new path past that.
    intro a b c da db ha hb
    rcases spells.hung_cases hid ha with ⟨rfl, rfl, rfl⟩ | ⟨hla, hca⟩ | ⟨hga, hca⟩ <;>
      rcases spells.hung_cases hid hb with ⟨hb1, hb2, hb3⟩ | ⟨hlb, hcb⟩ | ⟨hgb, hcb⟩
    · exact ⟨hb1.symm, hb2.symm⟩
    · have := (tree.forward hcb).2
      omega
    · have := (spells.next hgb hcb).1
      omega
    · have := (tree.forward hca).2
      omega
    · exact tree.once hca hcb
    · have h1 := (tree.forward hca).2
      have h2 := (spells.next hgb hcb).1
      omega
    · have := (spells.next hga hca).1
      omega
    · have h1 := (spells.next hga hca).1
      have h2 := (tree.forward hcb).2
      omega
    · have h1 := (spells.next hga hca).1
      obtain ⟨h2, -, honly⟩ := spells.next hgb hcb
      have hab : a = b := by omega
      subst hab
      exact ⟨rfl, honly _ hca⟩

/-- A slot that was free is all that changes among the old nodes. -/
theorem Spells.grows_hung (hid : id < pool.size) (free : pool.child id digit = none) :
    Grows pool (spelled.write id (·.setChild digit (some pool.size))) := by
  refine ⟨?_, ?_, ?_, ?_⟩
  · rw [size_write, spells.size_eq]
    omega
  · intro other c digit' h
    have hlt : other < pool.size := by
      by_contra hge
      unfold child at h
      rw [get_of_size_le (Nat.le_of_not_lt hge), child_blank] at h
      cases h
    rw [spells.child_hung hid, if_neg, spells.child_old hlt]
    · exact h
    · rintro ⟨rfl, rfl⟩
      rw [free] at h
      cases h
  · intro other c digit' h hc
    rcases spells.hung_cases hid h with ⟨-, -, rfl⟩ | ⟨-, hc'⟩ | ⟨hge, hc'⟩
    · exact absurd hc (Nat.lt_irrefl _)
    · exact hc'
    · have := (spells.next hge hc').1
      omega
  · intro other
    rw [value_write_setChild]
    rcases Nat.lt_or_ge other pool.size with hlt | hge
    · rw [spells.old hlt]
    · rw [spells.blank hge, get_of_size_le hge]

/-- Along the new path the node it was hung on is not met again. -/
theorem Spells.walk_hung (hid : id < pool.size) (rest : List Nibble) {start : Nat}
    (hstart : pool.size ≤ start) :
    (spelled.write id (·.setChild digit (some pool.size))).walk start rest =
      spelled.walk start rest := by
  induction rest generalizing start with
  | nil => rfl
  | cons d rest ih =>
    have hne : ¬ (start = id ∧ d = digit) := by
      rintro ⟨rfl, -⟩
      omega
    rw [walk_cons, walk_cons, spells.child_hung hid, if_neg hne]
    cases hc : spelled.child start d with
    | none => rfl
    | some c =>
      have := (spells.next hstart hc).1
      exact ih (by omega)

/-- A spelled path that is hung in a free slot is a path of a tree that has grown by it. -/
theorem Spells.hang (tree : pool.IsTree) (hid : id < pool.size) (free : pool.child id digit = none) :
    let hung := spelled.write id (·.setChild digit (some pool.size))
    hung.IsTree ∧ Grows pool hung ∧ hung.walk id (digit :: path) = some last := by
  refine ⟨spells.isTree_hung tree hid, spells.grows_hung hid free, ?_⟩
  rw [walk_cons, spells.child_hung hid, if_pos ⟨rfl, rfl⟩, Option.bind_some,
    spells.walk_hung hid path (Nat.le_refl _), spells.walk]

end Hang

/-- Reaching the end of a path creates what is missing of it and changes nothing else. -/
theorem reach_spec {pool : NodePool} (tree : pool.IsTree) {id : Nat} (hid : id < pool.size)
    (path : List Nibble) :
    (pool.reach id path).1.IsTree ∧ Grows pool (pool.reach id path).1 ∧
      (pool.reach id path).1.walk id path = some (pool.reach id path).2 := by
  induction path generalizing id with
  | nil => exact ⟨tree, Grows.refl _, rfl⟩
  | cons digit rest ih =>
    rw [reach]
    cases hc : pool.child id digit with
    | some child =>
      obtain ⟨htree, hgrows, hwalk⟩ := ih (tree.forward hc).2
      refine ⟨htree, hgrows, ?_⟩
      rw [walk_cons, hgrows.keeps hc]
      exact hwalk
    | none =>
      obtain ⟨htop, hspells⟩ := spell_spec pool rest
      have hhang := hspells.hang tree hid hc
      simp only [htop]
      exact hhang

end NodePool
end SnapshotStore
