import Mathlib
import SnapshotStore.Proofs.Bytes
import SnapshotStore.Proofs.Trie.Cursor

/-!
# A cursor asks for the next key

Here the theory of places becomes one of keys. A cursor that rests on a key (`Cursor.Sound`) moves to
the first key that is bound past it, in the trie as it is when it moves, and is exhausted exactly if
there is none in its range (`next_spec`). Opening a cursor is the same search from a start
(`scan_spec`, `scanBeginning_spec`). A sound cursor stays sound whatever is bound or unbound, because
links stay; so nothing that is said about a move depends on when the cursor was opened.

How many moves are left is bounded by the nodes that bound keys end at (`keysAhead`), which is what
the fuel of every scan comes down to.
-/

namespace SnapshotStore

/-! ## 1. Keys in scan order -/

/-- In a scan the second key comes strictly after the first. -/
def Direction.After : Direction → Bytes → Bytes → Prop
  | .forward, a, b => Bytes.order a b = .lt
  | .backward, a, b => Bytes.order b a = .lt

namespace Direction

variable {direction : Direction}

theorem After.irrefl (a : Bytes) : ¬ direction.After a a := by
  cases direction <;> simp [After]

theorem After.trans {a b c : Bytes} (hab : direction.After a b) (hbc : direction.After b c) :
    direction.After a c := by
  cases direction with
  | forward => exact Bytes.order_trans hab hbc
  | backward => exact Bytes.order_trans hbc hab

theorem After.asymm {a b : Bytes} (hab : direction.After a b) : ¬ direction.After b a :=
  fun hba => After.irrefl a (hab.trans hba)

theorem After.ne {a b : Bytes} (hab : direction.After a b) : b ≠ a := by
  rintro rfl
  exact After.irrefl b hab

theorem After.prefix {front a b c : Bytes} (ha : front <+: a) (hc : front <+: c)
    (hab : direction.After a b) (hbc : direction.After b c) : front <+: b := by
  cases direction with
  | forward => exact Bytes.prefix_of_between ha hc hab hbc
  | backward => exact Bytes.prefix_of_between hc ha hbc hab

end Direction

namespace Trie

theorem digitsOfByte_lt (x y : UInt8) (p q : List Slot) :
    Later .forward ((digitsOfByte x).map .child ++ p) ((digitsOfByte y).map .child ++ q) ↔
      x.toNat < y.toNat ∨ x.toNat = y.toNat ∧ Later .forward p q := by
  have hx := x.toNat_lt
  have hy := y.toNat_lt
  simp only [digitsOfByte, List.map_cons, List.map_nil, List.cons_append, List.nil_append, Later,
    Slot.child_mem_past_child, Slot.child.injEq, Fin.lt_def, Fin.ext_iff, Fin.ofNat]
  by_cases hlater : Later .forward p q
  · simp only [hlater, and_true]
    omega
  · simp only [hlater, and_false, or_false]
    omega

/-- Paths are in the order of the bytes that they spell. -/
theorem later_digits_forward (a b : Bytes) :
    Later .forward (spots (digits a)) (spots (digits b)) ↔ Bytes.order a b = .lt := by
  induction a generalizing b with
  | nil =>
    cases b with
    | nil =>
      rw [Bytes.order_self]
      simp only [reduceCtorEq, iff_false]
      rintro (h | ⟨_, h⟩)
      · revert h
        decide
      · exact h
    | cons y b =>
      rw [Bytes.order_nil_cons, digits_cons, spots_append, digits_nil, spots_nil]
      simp only [iff_true]
      refine Or.inl ?_
      show Slot.child _ ∈ Slot.past .forward .value
      generalize Fin.ofNat 16 (y.toNat / 16) = d
      revert d
      decide
  | cons x a ih =>
    cases b with
    | nil =>
      rw [Bytes.order_cons_nil, digits_cons, spots_append, digits_nil, spots_nil]
      simp only [reduceCtorEq, iff_false]
      rintro (h | ⟨h, _⟩)
      · revert h
        generalize Fin.ofNat 16 (x.toNat / 16) = d
        revert d
        decide
      · cases h
    | cons y b =>
      rw [digits_cons, digits_cons, spots_append, spots_append, digitsOfByte_lt, ih,
        Bytes.order_cons_lt]

/-- The paths of keys are in scan order as the keys are. -/
theorem later_digits {direction : Direction} {a b : Bytes} :
    Later direction (spots (digits a)) (spots (digits b)) ↔ direction.After a b := by
  cases direction with
  | forward => exact later_digits_forward a b
  | backward => rw [later_backward, later_digits_forward]; rfl

/-- A path of whole bytes is that of the key it spells. -/
theorem digits_spelled {path : List Nibble} (h : path.length % 2 = 0) :
    digits (spelled path) = path := by
  induction path using spelled.induct with
  | case1 high low rest ih =>
    have heven : rest.length % 2 = 0 := by
      simp only [List.length_cons] at h
      omega
    rw [spelled, digits_cons, ih heven]
    have hhigh := high.isLt
    have hlow := low.isLt
    simp only [digitsOfByte, UInt8.toNat_ofNat', Fin.ofNat, List.cons_append, List.nil_append,
      List.cons.injEq, Fin.ext_iff, and_true]
    omega
  | case2 path hshort =>
    cases path with
    | nil => rfl
    | cons high path =>
      cases path with
      | nil => simp at h
      | cons low rest => exact absurd rfl (hshort high low rest)

theorem holds_digits {trie : Trie} {key : Bytes} {row : RowHandle} :
    trie.pool.Holds (digits key) row ↔ trie.get? key = some row := by
  rw [NodePool.Holds, get?, length_digits, Option.bind_eq_some_iff]
  constructor
  · rintro ⟨_, id, hwalk, hvalue⟩
    exact ⟨id, hwalk, hvalue⟩
  · rintro ⟨id, hwalk, hvalue⟩
    exact ⟨by omega, id, hwalk, hvalue⟩

/-! ## 2. The first of the keys -/

/-- The first key that is bound among those of a set, in scan order, if there is one. -/
def Finds (trie : Trie) (direction : Direction) (among : Bytes → Prop) :
    Option (Bytes × RowHandle) → Prop
  | none => ∀ key, among key → trie.get? key = none
  | some (found, row) =>
    among found ∧ trie.get? found = some row ∧
      ∀ key, among key → (trie.get? key).isSome → key = found ∨ direction.After found key

/-- What the search on paths finds is the first of the keys. -/
theorem FirstIn.finds {trie : Trie} {direction : Direction} {covers : List Nibble → Prop}
    {among : Bytes → Prop} {found : Option (List Nibble × RowHandle)}
    (first : FirstIn trie.pool direction covers found)
    (same : ∀ key row, trie.get? key = some row → (covers (digits key) ↔ among key)) :
    Finds trie direction among (found.map fun entry => (spelled entry.1, entry.2)) := by
  cases found with
  | none =>
    intro key hkey
    by_contra hne
    obtain ⟨row, hrow⟩ := Option.ne_none_iff_exists'.mp hne
    exact first _ row ((same key row hrow).mpr hkey) (holds_digits.mpr hrow)
  | some entry =>
    obtain ⟨path, row⟩ := entry
    obtain ⟨hcovers, hholds, hleast⟩ := first
    have hpath : digits (spelled path) = path := digits_spelled hholds.1
    rw [← hpath] at hholds hcovers hleast
    have hget := holds_digits.mp hholds
    refine ⟨(same _ _ hget).mp hcovers, hget, ?_⟩
    intro key hkey hsome
    obtain ⟨other, hother⟩ := Option.isSome_iff_exists.mp hsome
    rcases hleast _ other ((same _ _ hother).mpr hkey) (holds_digits.mpr hother) with heq | hlater
    · exact Or.inl (digits_injective heq)
    · exact Or.inr (later_digits.mp hlater)

theorem Finds.congr {trie : Trie} {direction : Direction} {a b : Bytes → Prop}
    {found : Option (Bytes × RowHandle)} (h : Finds trie direction a found)
    (same : ∀ key, a key ↔ b key) : Finds trie direction b found := by
  have heq : a = b := funext fun key => propext (same key)
  rwa [← heq]

/-! ## 3. Cursors -/

namespace Cursor

/-- The cursor rests right past an entry, or is exhausted. -/
structure Sound (cursor : Cursor) (trie : Trie) : Prop where
  current : cursor.handle.isSome = !cursor.exhausted
  rests : cursor.exhausted = false →
    Rests trie.pool cursor.direction cursor.place ∧
      cursor.place.path.reverse = digits cursor.key ∧ cursor.beginning <+: cursor.key

/-- Whatever is bound and unbound, the cursor rests where it did. -/
theorem Sound.mono {cursor : Cursor} {trie larger : Trie} (sound : cursor.Sound trie)
    (grows : trie.Extends larger) : cursor.Sound larger := by
  refine ⟨sound.current, fun h => ?_⟩
  obtain ⟨hrests, hpath, hbegins⟩ := sound.rests h
  exact ⟨hrests.mono grows.keeps, hpath, hbegins⟩

theorem sound_exhaust (cursor : Cursor) (trie : Trie) : cursor.exhaust.Sound trie :=
  ⟨rfl, fun h => by cases h⟩

/-- A cursor after a move: where it was going, and what it found there. -/
structure Moved (cursor : Cursor) (trie : Trie) (among : Bytes → Prop) (moved : Cursor) : Prop where
  sound : moved.Sound trie
  direction : moved.direction = cursor.direction
  beginning : moved.beginning = cursor.beginning
  finds : Finds trie cursor.direction (fun key => among key ∧ cursor.beginning <+: key) moved.current
  key : moved.exhausted = true → moved.key = cursor.key

variable {cursor : Cursor} {trie : Trie} {among : Bytes → Prop}

/-- The search from the place of the cursor, cut off at the end of its range: past a key outside the
range, the search would find none that is in it again. -/
theorem advance_spec (tree : trie.pool.IsTree) (open' : cursor.exhausted = false)
    (stands : Stands trie.pool cursor.direction cursor.place)
    (covers : ∀ key row, trie.get? key = some row →
      (Covers cursor.place.frames cursor.place.path (digits key) ↔ among key))
    (convex : ∀ a b, among a → cursor.direction.After a b → cursor.beginning <+: b →
      cursor.beginning <+: a) :
    Moved cursor trie among (cursor.advance trie) := by
  have hlands := stands.firstFrom tree
  have hfinds := hlands.first.finds covers
  rw [advance, if_neg (by rw [open']; decide)]
  cases hfound : firstFrom trie.pool cursor.direction cursor.place.frames cursor.place.path with
  | none =>
    rw [hfound] at hfinds
    refine ⟨sound_exhaust _ _, rfl, rfl, ?_, fun _ => rfl⟩
    intro key hkey
    exact hfinds key hkey.1
  | some landing =>
    rw [hfound] at hfinds
    obtain ⟨hamong, hget, hleast⟩ := hfinds
    simp only
    by_cases hin : cursor.beginning.isPrefixOf (spelled landing.place.path.reverse) = true
    · rw [if_pos hin]
      have hprefix := List.isPrefixOf_iff_prefix.mp hin
      refine ⟨⟨by rw [open']; rfl, fun _ => ⟨?_, ?_, hprefix⟩⟩, rfl, rfl, ?_, ?_⟩
      · have hrests := hlands.rests landing hfound
        rwa [List.append_nil] at hrests
      · have hholds := hlands.first
        rw [hfound] at hholds
        exact (digits_spelled hholds.2.1.1).symm
      · exact ⟨⟨hamong, hprefix⟩, hget, fun key hkey hsome => hleast key hkey.1 hsome⟩
      · intro h
        rw [show _ = cursor.exhausted from rfl, open'] at h
        cases h
    · rw [if_neg hin]
      refine ⟨sound_exhaust _ _, rfl, rfl, ?_, fun _ => rfl⟩
      rintro key ⟨hkey, hbegins⟩
      by_contra hne
      have hout : ¬ cursor.beginning <+: spelled landing.place.path.reverse :=
        fun h => hin (List.isPrefixOf_iff_prefix.mpr h)
      rcases hleast key hkey (Option.isSome_iff_ne_none.mpr hne) with rfl | hafter
      · exact hout hbegins
      · exact hout (convex _ key hamong hafter hbegins)

/-- Seeking a start and searching from there finds the first key at or past it. -/
theorem seek_advance_spec (tree : trie.pool.IsTree) (open' : cursor.exhausted = false)
    (start : Bytes) (inclusive : Bool)
    (convex : ∀ a b, inclusive = true ∧ a = start ∨ cursor.direction.After start a →
      cursor.direction.After a b → cursor.beginning <+: b → cursor.beginning <+: a) :
    Moved cursor trie (fun key => inclusive = true ∧ key = start ∨ cursor.direction.After start key)
      ((cursor.seek trie start inclusive).advance trie) := by
  let above : Place := {}
  have hroot : Spine trie.pool cursor.direction NodePool.root above.path above.frames := .root
  obtain ⟨hstands, hcovers⟩ := seek_spec inclusive (digits start) hroot
  have hmoved : Moved (cursor.seek trie start inclusive) trie _ _ :=
    advance_spec tree open' hstands (fun key row hget => ?_) convex
  · exact ⟨hmoved.sound, hmoved.direction, hmoved.beginning, hmoved.finds, hmoved.key⟩
  · rw [← later_digits]
    refine (hcovers _ row (holds_digits.mpr hget)).trans (or_congr_left (and_congr_right fun _ => ?_))
    exact ⟨digits_injective, congrArg digits⟩

/-- A move leads to the first key bound past the one that the cursor rests on, in the trie as it is
now, and exhausts the cursor if its range holds none. -/
theorem next_spec (tree : trie.pool.IsTree) (sound : cursor.Sound trie)
    (open' : cursor.exhausted = false) :
    Moved cursor trie (cursor.direction.After cursor.key) (cursor.next trie) := by
  obtain ⟨hrests, hpath, hbegins⟩ := sound.rests open'
  have hconvex : ∀ a b, cursor.direction.After cursor.key a → cursor.direction.After a b →
      cursor.beginning <+: b → cursor.beginning <+: a :=
    fun a b hpast hafter hb => hpast.prefix hbegins hb hafter
  rw [next, resume]
  by_cases hfresh : (cursor.exhausted || !cursor.isStale trie) = true
  · rw [if_pos hfresh]
    refine advance_spec tree open' hrests.stands (fun key row _ => ?_) hconvex
    rw [hrests.covers_iff, hpath, later_digits]
  · rw [if_neg hfresh]
    have hmoved := seek_advance_spec tree open' cursor.key false
      (by simpa only [Bool.false_eq_true, false_and, false_or] using hconvex)
    simpa only [Bool.false_eq_true, false_and, false_or] using hmoved

/-- An exhausted cursor stays so. -/
theorem next_of_exhausted (h : cursor.exhausted = true) : cursor.next trie = cursor.exhaust := by
  rw [next, resume, h, Bool.true_or, if_pos rfl, advance, if_pos h]

theorem current_eq_none_iff (sound : cursor.Sound trie) :
    cursor.current = none ↔ cursor.exhausted = true := by
  rw [current, Option.map_eq_none_iff, ← Option.isNone_iff_eq_none, ← Option.not_isSome,
    sound.current, Bool.not_not]

theorem eq_key_of_current {key : Bytes} {row : RowHandle} (h : cursor.current = some (key, row)) :
    cursor.key = key := by
  obtain ⟨_, _, heq⟩ := Option.map_eq_some_iff.mp h
  exact (Prod.mk.inj heq).1

end Cursor

/-- A scan starts at the first key at or past its start. -/
theorem scan_spec {trie : Trie} (tree : trie.pool.IsTree) (start : Bytes) (inclusive : Bool)
    (direction : Direction) :
    Cursor.Moved { direction } trie
      (fun key => inclusive = true ∧ key = start ∨ direction.After start key)
      (trie.scan start inclusive direction) :=
  Cursor.seek_advance_spec tree rfl start inclusive fun _ _ _ _ _ => List.nil_prefix

/-- A scan over the keys that begin with some bytes starts at the first of them. -/
theorem scanBeginning_spec {trie : Trie} (tree : trie.pool.IsTree) (beginning : Bytes) :
    Cursor.Moved { direction := .forward, beginning } trie (fun _ => True)
      (trie.scanBeginning beginning) := by
  let cursor : Cursor := { direction := .forward, beginning }
  have hopen : cursor.exhausted = false := rfl
  have hmoved := Cursor.seek_advance_spec tree hopen beginning true
    fun a b ha hab hb => by
      rcases ha with ⟨_, rfl⟩ | hafter
      · exact List.prefix_rfl
      · exact hafter.prefix List.prefix_rfl hb hab
  refine ⟨hmoved.sound, hmoved.direction, hmoved.beginning, hmoved.finds.congr fun key => ?_,
    hmoved.key⟩
  simp only [true_and]
  refine and_iff_right_iff_imp.mpr ?_
  rintro ⟨rest, rfl⟩
  cases rest with
  | nil => exact Or.inl (List.append_nil _)
  | cons b rest =>
    refine Or.inr ?_
    have horder := Bytes.order_append_left beginning [] (b :: rest)
    rwa [List.append_nil] at horder

/-! ## 4. How many moves are left -/

open Classical in
/-- The nodes at which the keys past a given one end. -/
noncomputable def nodesAhead (trie : Trie) (direction : Direction) (key : Bytes) : Finset Nat :=
  (Finset.range trie.nodeCount).filter fun id =>
    ∃ other, direction.After key other ∧ (trie.get? other).isSome ∧
      trie.pool.walk NodePool.root (digits other) = some id

/-- How many nodes the keys past a given one end at. -/
noncomputable def keysAhead (trie : Trie) (direction : Direction) (key : Bytes) : Nat :=
  (trie.nodesAhead direction key).card

section Count

variable {trie : Trie} {direction : Direction} {a b : Bytes}

theorem mem_nodesAhead {id : Nat} : id ∈ trie.nodesAhead direction a ↔
    id < trie.nodeCount ∧ ∃ other, direction.After a other ∧ (trie.get? other).isSome ∧
      trie.pool.walk NodePool.root (digits other) = some id := by
  classical
  unfold nodesAhead
  rw [Finset.mem_filter, Finset.mem_range]

theorem nodesAhead_subset (a : Bytes) :
    trie.nodesAhead direction a ⊆ Finset.range trie.nodeCount :=
  fun _ h => Finset.mem_range.mpr (mem_nodesAhead.mp h).1

variable (tree : trie.pool.IsTree)
include tree

/-- A bound key ends at a node of its own, which no key past it ends at. -/
theorem exists_node (hb : (trie.get? b).isSome) :
    ∃ id : Nat, id < trie.nodeCount ∧ trie.pool.walk NodePool.root (digits b) = some id ∧
      id ∉ trie.nodesAhead direction b := by
  obtain ⟨row, hrow⟩ := Option.isSome_iff_exists.mp hb
  obtain ⟨id, hwalk, _⟩ := Option.bind_eq_some_iff.mp hrow
  refine ⟨id, tree.walk_lt tree.nonempty hwalk, hwalk, fun hmem => ?_⟩
  obtain ⟨_, other, hafter, _, hother⟩ := mem_nodesAhead.mp hmem
  exact hafter.ne (digits_injective (tree.walk_root_injective hother hwalk))

/-- Each key that is met leaves fewer ahead. -/
theorem keysAhead_lt (hab : direction.After a b) (hb : (trie.get? b).isSome) :
    trie.keysAhead direction b < trie.keysAhead direction a := by
  obtain ⟨id, hlt, hwalk, hnot⟩ := exists_node tree hb
  have hsubset : trie.nodesAhead direction b ⊆ trie.nodesAhead direction a := by
    intro node hnode
    obtain ⟨hrange, other, hafter, hsome, hother⟩ := mem_nodesAhead.mp hnode
    exact mem_nodesAhead.mpr ⟨hrange, other, hab.trans hafter, hsome, hother⟩
  have hid : id ∈ trie.nodesAhead direction a := mem_nodesAhead.mpr ⟨hlt, b, hab, hb, hwalk⟩
  exact Finset.card_lt_card ((Finset.ssubset_iff_of_subset hsubset).mpr ⟨id, hid, hnot⟩)

theorem keysAhead_lt_nodeCount (hb : (trie.get? b).isSome) :
    trie.keysAhead direction b < trie.nodeCount := by
  obtain ⟨id, hlt, _, hnot⟩ := exists_node tree hb
  have hcard := Finset.card_lt_card ((Finset.ssubset_iff_of_subset (nodesAhead_subset b)).mpr
    ⟨id, Finset.mem_range.mpr hlt, hnot⟩)
  rwa [Finset.card_range] at hcard

end Count

/-! ## 5. All entries that begin alike -/

namespace Cursor

variable {cursor : Cursor} {trie : Trie}

/-- A cursor lists the entry it rests on and then those ahead of it, in scan order. -/
theorem entries_spec (tree : trie.pool.IsTree) (sound : cursor.Sound trie) {count : Nat}
    {first : Bytes} {row : RowHandle} (hcurrent : cursor.current = some (first, row))
    (enough : trie.keysAhead cursor.direction first < count) :
    (∀ entry, entry ∈ cursor.entries trie count ↔ entry = (first, row) ∨
      (cursor.direction.After first entry.1 ∧ cursor.beginning <+: entry.1) ∧
        trie.get? entry.1 = some entry.2) ∧
    (cursor.entries trie count).Pairwise fun x y => cursor.direction.After x.1 y.1 := by
  -- The count outlasts the keys that are ahead, which get fewer with each entry.
  induction count generalizing cursor first row with
  | zero => omega
  | succ count ih =>
    have hopen : cursor.exhausted = false := by
      rw [← Bool.not_eq_true, ← current_eq_none_iff sound, hcurrent]
      simp
    have hkey := eq_key_of_current hcurrent
    have hmoved := next_spec tree sound hopen
    have hfinds := hmoved.finds
    rw [hkey] at hfinds
    have hentries : cursor.entries trie (count + 1) =
        (first, row) :: (cursor.next trie).entries trie count := by
      rw [entries, hcurrent]
    rw [hentries]
    cases hnext : (cursor.next trie).current with
    | none =>
      rw [hnext] at hfinds
      have hnil : (cursor.next trie).entries trie count = [] := by
        cases count with
        | zero => rfl
        | succ count => rw [entries, hnext]
      rw [hnil]
      refine ⟨fun entry => ?_, List.pairwise_singleton _ _⟩
      rw [List.mem_singleton]
      refine (or_iff_left ?_).symm
      rintro ⟨hahead, hget⟩
      rw [hfinds _ hahead] at hget
      cases hget
    | some second =>
      obtain ⟨key, owner⟩ := second
      rw [hnext] at hfinds
      obtain ⟨⟨hafter, hbegins⟩, hget, hleast⟩ := hfinds
      have hsome : (trie.get? key).isSome := Option.isSome_iff_exists.mpr ⟨_, hget⟩
      have hfewer := keysAhead_lt tree hafter hsome
      rw [← hmoved.direction] at hfewer
      obtain ⟨hmem, hpairs⟩ := ih hmoved.sound hnext (by rw [hmoved.direction] at *; omega)
      rw [hmoved.direction, hmoved.beginning] at hmem
      rw [hmoved.direction] at hpairs
      refine ⟨fun entry => ?_, List.pairwise_cons.mpr ⟨fun entry hentry => ?_, hpairs⟩⟩
      · rw [List.mem_cons, hmem]
        refine or_congr_right ⟨?_, ?_⟩
        · rintro (rfl | ⟨⟨hpast, hbegins'⟩, hget'⟩)
          · exact ⟨⟨hafter, hbegins⟩, hget⟩
          · exact ⟨⟨hafter.trans hpast, hbegins'⟩, hget'⟩
        · rintro ⟨hahead, hget'⟩
          rcases hleast _ hahead (Option.isSome_iff_exists.mpr ⟨_, hget'⟩) with heq | hpast
          · refine Or.inl (Prod.ext heq ?_)
            rw [heq, hget] at hget'
            exact (Option.some.inj hget').symm
          · exact Or.inr ⟨⟨hpast, hahead.2⟩, hget'⟩
      · rcases (hmem entry).mp hentry with rfl | ⟨⟨hpast, _⟩, _⟩
        · exact hafter
        · exact hafter.trans hpast

end Cursor

/-- The entries that begin with some bytes are listed in order, each once. -/
theorem entriesBeginning_spec {trie : Trie} (tree : trie.pool.IsTree) (beginning : Bytes) :
    (∀ entry, entry ∈ trie.entriesBeginning beginning ↔
      beginning <+: entry.1 ∧ trie.get? entry.1 = some entry.2) ∧
    (trie.entriesBeginning beginning).Pairwise fun x y => Bytes.order x.1 y.1 = .lt := by
  have hmoved := scanBeginning_spec tree beginning
  have hfinds := hmoved.finds
  rw [entriesBeginning]
  cases hfirst : (trie.scanBeginning beginning).current with
  | none =>
    rw [hfirst] at hfinds
    have hnil : (trie.scanBeginning beginning).entries trie trie.nodeCount = [] := by
      cases trie.nodeCount with
      | zero => rfl
      | succ count => rw [Cursor.entries, hfirst]
    rw [hnil]
    refine ⟨fun entry => ?_, List.Pairwise.nil⟩
    simp only [List.not_mem_nil, false_iff, not_and]
    intro hbegins hget
    rw [hfinds _ ⟨trivial, hbegins⟩] at hget
    cases hget
  | some first =>
    obtain ⟨key, row⟩ := first
    rw [hfirst] at hfinds
    obtain ⟨⟨_, hbegins⟩, hget, hleast⟩ := hfinds
    obtain ⟨hmem, hpairs⟩ := Cursor.entries_spec tree hmoved.sound hfirst
      (keysAhead_lt_nodeCount tree (Option.isSome_iff_exists.mpr ⟨_, hget⟩))
    rw [hmoved.direction, hmoved.beginning] at hmem
    rw [hmoved.direction] at hpairs
    refine ⟨fun entry => ?_, hpairs⟩
    rw [hmem]
    constructor
    · rintro (rfl | ⟨⟨_, hbegins'⟩, hget'⟩)
      · exact ⟨hbegins, hget⟩
      · exact ⟨hbegins', hget'⟩
    · rintro ⟨hbegins', hget'⟩
      rcases hleast _ ⟨trivial, hbegins'⟩ (Option.isSome_iff_exists.mpr ⟨_, hget'⟩) with heq | hpast
      · refine Or.inl (Prod.ext heq ?_)
        rw [heq, hget] at hget'
        exact (Option.some.inj hget').symm
      · exact Or.inr ⟨⟨hpast, hbegins'⟩, hget'⟩

end Trie
end SnapshotStore
