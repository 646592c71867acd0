import Mathlib
import SnapshotStore.Trie.Cursor
import SnapshotStore.Proofs.Trie.Map

/-!
# Where a cursor rests

What a cursor has left in its frames is exactly what comes past its path in the trie *as it is now*:
the frames hold the nodes on the path and the slots past those that the path takes, and links never
move (`Rests`). So a move finds the first entry past the last one whatever has been bound or unbound
in the meantime, and seeking the place again, which a cursor does when it notices a change, makes no
difference.

A path is compared with another as the list of slots it takes, its value slot last (`spots`). Such
lists have no proper beginnings among them, so the scan order of either direction is the
lexicographic order of slots and nothing else (`Later`). A place covers a set of paths (`Covers`);
`seek_spec` says which of them a seek covers, and `firstFrom_spec` that the search finds the first.
-/

namespace SnapshotStore
namespace Trie

/-! ## 1. Slots in scan order -/

namespace Slot

theorem nodup_all (direction : Direction) : (all direction).Nodup := by
  cases direction <;> decide

theorem mem_all (direction : Direction) (slot : Slot) : slot ∈ all direction := by
  cases slot with
  | value => cases direction <;> decide
  | child digit =>
    revert digit
    cases direction <;> decide

theorem onward_eq {direction : Direction} {front back : List Slot} {slot : Slot}
    (h : all direction = front ++ slot :: back) : onward direction slot = slot :: back := by
  have hfront : ∀ s ∈ front, decide (s ≠ slot) = true := by
    intro s hs
    have hnodup := nodup_all direction
    rw [h, List.nodup_append] at hnodup
    exact decide_eq_true (hnodup.2.2 s hs slot List.mem_cons_self)
  rw [onward, h, List.dropWhile_append_of_pos hfront, List.dropWhile_cons_of_neg (by simp)]

theorem past_eq {direction : Direction} {front back : List Slot} {slot : Slot}
    (h : all direction = front ++ slot :: back) : past direction slot = back := by
  rw [past, onward_eq h]
  rfl

/-- The slots past a given one are all that follow it. -/
theorem exists_all_eq (direction : Direction) (slot : Slot) :
    ∃ front, all direction = front ++ slot :: past direction slot := by
  obtain ⟨front, back, h⟩ := List.append_of_mem (mem_all direction slot)
  exact ⟨front, by rw [past_eq h]; exact h⟩

theorem child_mem_past_child (a b : Nibble) : child b ∈ past .forward (child a) ↔ a < b := by
  revert a b
  decide

/-- What is past in one direction is before in the other. -/
theorem mem_past_backward (s t : Slot) : t ∈ past .backward s ↔ s ∈ past .forward t := by
  cases s with
  | value =>
    cases t with
    | value => decide
    | child b => revert b; decide
  | child a =>
    cases t with
    | value => revert a; decide
    | child b => revert a b; decide

end Slot

/-! ## 2. Paths in scan order -/

/-- The slots that a path takes, the value where it ends included. -/
def spots (path : List Nibble) : List Slot := path.map .child ++ [.value]

/-- The second list of slots comes strictly after the first: at the first difference its slot is
past the other. -/
def Later (direction : Direction) : List Slot → List Slot → Prop
  | s :: ss, t :: ts => t ∈ Slot.past direction s ∨ s = t ∧ Later direction ss ts
  | _, _ => False

variable {direction : Direction}

@[simp] theorem spots_nil : spots [] = [.value] := rfl

@[simp] theorem spots_cons (digit : Nibble) (path : List Nibble) :
    spots (digit :: path) = .child digit :: spots path := rfl

theorem spots_append (p q : List Nibble) : spots (p ++ q) = p.map .child ++ spots q := by
  simp [spots]

/-- A path whose slots begin like those of another goes on from it. -/
theorem eq_append_of_spots {path front : List Nibble} {slot : Slot} {more : List Slot}
    (h : spots path = front.map .child ++ slot :: more) :
    ∃ back, path = front ++ back ∧ spots back = slot :: more := by
  induction front generalizing path with
  | nil => exact ⟨path, rfl, h⟩
  | cons digit front ih =>
    cases path with
    | nil => cases h
    | cons first path =>
      obtain ⟨hfirst, hrest⟩ := List.cons.inj h
      cases hfirst
      obtain ⟨back, rfl, hback⟩ := ih hrest
      exact ⟨back, rfl, hback⟩

/-- A longer list of slots has what comes after a beginning of it, and after the rest of it among
what begins the same. -/
theorem later_append (front back other : List Slot) :
    Later direction (front ++ back) other ↔
      Later direction front other ∨ ∃ rest, other = front ++ rest ∧ Later direction back rest := by
  induction front generalizing other with
  | nil =>
    simp only [List.nil_append, exists_eq_left']
    cases other <;> simp [Later]
  | cons s front ih =>
    cases other with
    | nil => simp [Later]
    | cons t other =>
      rw [List.cons_append, Later, Later, ih]
      constructor
      · rintro (h | ⟨rfl, h | ⟨rest, rfl, h⟩⟩)
        · exact Or.inl (Or.inl h)
        · exact Or.inl (Or.inr ⟨rfl, h⟩)
        · exact Or.inr ⟨rest, rfl, h⟩
      · rintro ((h | ⟨rfl, h⟩) | ⟨rest, heq, h⟩)
        · exact Or.inl h
        · exact Or.inr ⟨rfl, Or.inl h⟩
        · obtain ⟨rfl, rfl⟩ := List.cons.inj heq
          exact Or.inr ⟨rfl, Or.inr ⟨rest, rfl, h⟩⟩

theorem later_backward (s t : List Slot) : Later .backward s t ↔ Later .forward t s := by
  induction s generalizing t with
  | nil => cases t <;> simp [Later]
  | cons a s ih =>
    cases t with
    | nil => simp [Later]
    | cons b t => rw [Later, Later, Slot.mem_past_backward, ih, eq_comm]

/-! ## 3. Entries of a pool -/

end Trie

namespace NodePool

/-- An entry ends at the path: a whole number of bytes leads to a node with a value. -/
def Holds (pool : NodePool) (path : List Nibble) (handle : RowHandle) : Prop :=
  path.length % 2 = 0 ∧
    ∃ id : Nat, pool.walk root path = some id ∧ (pool.get id).value = some handle

theorem Holds.unique {pool : NodePool} {path : List Nibble} {g h : RowHandle}
    (hg : pool.Holds path g) (hh : pool.Holds path h) : g = h := by
  obtain ⟨_, id, hid, hvalue⟩ := hg
  obtain ⟨_, id', hid', hvalue'⟩ := hh
  rw [hid] at hid'
  cases hid'
  rw [hvalue] at hvalue'
  exact Option.some.inj hvalue'

end NodePool

namespace Trie

/-- The first entry among the paths of a set, in scan order, if there is one. -/
def FirstIn (pool : NodePool) (direction : Direction) (among : List Nibble → Prop) :
    Option (List Nibble × RowHandle) → Prop
  | none => ∀ path handle, among path → ¬ pool.Holds path handle
  | some (found, handle) =>
    among found ∧ pool.Holds found handle ∧
      ∀ path other, among path → pool.Holds path other →
        path = found ∨ Later direction (spots found) (spots path)

/-- Where the entries are the same ones, so is the first. -/
theorem FirstIn.congr {pool : NodePool} {a b : List Nibble → Prop}
    {found : Option (List Nibble × RowHandle)} (first : FirstIn pool direction a found)
    (same : ∀ path handle, pool.Holds path handle → (a path ↔ b path)) :
    FirstIn pool direction b found := by
  cases found with
  | none =>
    intro path handle hb hholds
    exact first path handle ((same path handle hholds).mpr hb) hholds
  | some found =>
    obtain ⟨hin, hholds, hleast⟩ := first
    refine ⟨(same _ _ hholds).mp hin, hholds, ?_⟩
    intro path other hb hother
    exact hleast path other ((same path other hother).mpr hb) hother

/-- Looking first where everything comes first, and then elsewhere. -/
theorem FirstIn.orElse {pool : NodePool} {a b : List Nibble → Prop}
    {x y : Option (List Nibble × RowHandle)} (ha : FirstIn pool direction a x)
    (hb : x = none → FirstIn pool direction b y)
    (before : ∀ p q, a p → b q → Later direction (spots p) (spots q)) :
    FirstIn pool direction (fun path => a path ∨ b path) (x.or y) := by
  cases x with
  | none =>
    rw [Option.none_or]
    exact (hb rfl).congr fun path handle hholds =>
      ⟨Or.inr, fun h => h.resolve_left fun hpath => ha path handle hpath hholds⟩
  | some found =>
    obtain ⟨hin, hholds, hleast⟩ := ha
    refine ⟨Or.inl hin, hholds, ?_⟩
    rintro path other (hpath | hpath) hother
    · exact hleast path other hpath hother
    · exact Or.inr (before _ _ hin hpath)

/-! ## 4. Frames and what they cover -/

/-- The frames above a node: those of the nodes on its path, each with the slots past the one that
the path takes. The path is given from its deepest digit up, as a place keeps it. -/
inductive Spine (pool : NodePool) (direction : Direction) : Nat → List Nibble → List Frame → Prop
  | root : Spine pool direction NodePool.root [] []
  | step {node child : Nat} {path : List Nibble} {above : List Frame} {frame : Frame}
      {digit : Nibble} :
      Spine pool direction node path above → frame.node = node →
      pool.child node digit = some child → frame.rest = Slot.past direction (.child digit) →
      Spine pool direction child (digit :: path) (frame :: above)

/-- The place is right past the value of the node at its path. -/
def Rests (pool : NodePool) (direction : Direction) (place : Place) : Prop :=
  ∃ frame above, place.frames = frame :: above ∧ frame.rest = Slot.past direction .value ∧
    Spine pool direction frame.node place.path above

/-- A path goes on from a node by one of the slots that a frame has left. -/
def CoversBelow (frame : Frame) (above path : List Nibble) : Prop :=
  ∃ slot more, spots path = above.reverse.map .child ++ slot :: more ∧ slot ∈ frame.rest

/-- The paths that frames have left to be visited. -/
def Covers : List Frame → List Nibble → List Nibble → Prop
  | [], _, _ => False
  | frame :: above, position, path =>
    CoversBelow frame position path ∨ Covers above position.tail path

namespace Spine

variable {pool : NodePool}

theorem walk {node : Nat} {path : List Nibble} {above : List Frame}
    (spine : Spine pool direction node path above) :
    pool.walk NodePool.root path.reverse = some node := by
  induction spine with
  | root => rfl
  | step _ _ hchild _ ih =>
    rw [List.reverse_cons, NodePool.walk_concat, ih]
    exact hchild

/-- The frame next above a node is that of the node's parent. -/
theorem up {node : Nat} {path : List Nibble} {next : Frame} {above : List Frame}
    (spine : Spine pool direction node path (next :: above)) :
    Spine pool direction next.node path.tail above ∧
      ∃ digit, next.rest = Slot.past direction (.child digit) := by
  cases spine with
  | step hspine hnode _ hrest =>
    rw [← hnode] at hspine
    exact ⟨hspine, _, hrest⟩

/-- Frames stay right while links stay. -/
theorem mono {larger : NodePool} {node : Nat} {path : List Nibble} {above : List Frame}
    (spine : Spine pool direction node path above)
    (keeps : ∀ {id child : Nat} {digit}, pool.child id digit = some child →
      larger.child id digit = some child) : Spine larger direction node path above := by
  induction spine with
  | root => exact .root
  | step _ hnode hchild hrest ih => exact .step ih hnode (keeps hchild) hrest

/-- A frame that has left what is past a slot covers, with those above it, what comes after
everything that begins like its path and that slot. -/
theorem covers_cons {path other : List Nibble} {above : List Frame} {frame : Frame} {slot : Slot}
    (hrest : frame.rest = Slot.past direction slot)
    (habove : Covers above path.tail other ↔
      Later direction (path.reverse.map .child) (spots other)) :
    Covers (frame :: above) path other ↔
      Later direction (path.reverse.map .child ++ [slot]) (spots other) := by
  rw [Covers, habove, later_append, or_comm]
  apply or_congr_right
  constructor
  · rintro ⟨first, more, hspots, hfirst⟩
    rw [hrest] at hfirst
    exact ⟨first :: more, hspots, Or.inl hfirst⟩
  · rintro ⟨rest, hspots, hlater⟩
    cases rest with
    | nil => simp [Later] at hlater
    | cons first more =>
      refine ⟨first, more, hspots, ?_⟩
      rw [hrest]
      exact hlater.resolve_right fun h => by simp [Later] at h

/-- The frames above a node cover what comes after everything that begins like its path. -/
theorem covers_iff {node : Nat} {path : List Nibble} {above : List Frame}
    (spine : Spine pool direction node path above) (other : List Nibble) :
    Covers above path.tail other ↔ Later direction (path.reverse.map .child) (spots other) := by
  induction spine with
  | root => cases other <;> simp [Covers, Later]
  | step _ _ _ hrest ih =>
    rw [List.tail_cons, covers_cons hrest ih, List.reverse_cons, List.map_append]
    rfl

end Spine

/-- What a place right past a value covers is what comes after its path. -/
theorem Rests.covers_iff {pool : NodePool} {place : Place} (rests : Rests pool direction place)
    (other : List Nibble) :
    Covers place.frames place.path other ↔
      Later direction (spots place.path.reverse) (spots other) := by
  obtain ⟨frame, above, hframes, hrest, spine⟩ := rests
  rw [hframes]
  exact Spine.covers_cons hrest (spine.covers_iff other)

/-! ## 5. The search below a node -/

/-- The path and the row of an entry that was found. -/
def Landing.entry (landing : Landing) : List Nibble × RowHandle :=
  (landing.place.path.reverse, landing.handle)

/-- What the search does at one slot of a node. -/
def visitSlot (pool : NodePool) (direction : Direction) (depth : Nat) (frame : Frame)
    (path : List Nibble) (slot : Slot) (rest : List Slot) : Option Landing :=
  match slot with
  | .value =>
    if path.length % 2 = 0 then
      (pool.get frame.node).value.map fun handle => ⟨⟨[{ frame with rest }], path⟩, handle⟩
    else none
  | .child digit =>
    (pool.child frame.node digit).bind fun child =>
      (firstBelow pool direction depth (.enter pool child (Slot.all direction))
        (digit :: path)).map fun landing =>
          ⟨⟨landing.place.frames ++ [{ frame with rest }], landing.place.path⟩, landing.handle⟩

theorem firstBelow_succ (pool : NodePool) (direction : Direction) (depth : Nat) (frame : Frame)
    (path : List Nibble) :
    firstBelow pool direction (depth + 1) frame path =
      firstWithRest (visitSlot pool direction depth frame path) frame.rest := rfl

theorem firstWithRest_cons {α β : Type} (visit : α → List α → Option β) (a : α) (rest : List α) :
    firstWithRest visit (a :: rest) = (visit a rest).or (firstWithRest visit rest) := by
  rw [firstWithRest]
  cases visit a rest <;> rfl

/-- The search came out right: it found the first entry of a set, and the place right past it. -/
structure Lands (pool : NodePool) (direction : Direction) (above : List Frame)
    (among : List Nibble → Prop) (found : Option Landing) : Prop where
  rests : ∀ landing, found = some landing →
    Rests pool direction ⟨landing.place.frames ++ above, landing.place.path⟩
  first : FirstIn pool direction among (found.map Landing.entry)

theorem Lands.orElse {pool : NodePool} {above : List Frame} {a b : List Nibble → Prop}
    {x y : Option Landing} (ha : Lands pool direction above a x)
    (hb : x = none → Lands pool direction above b y)
    (before : ∀ p q, a p → b q → Later direction (spots p) (spots q)) :
    Lands pool direction above (fun path => a path ∨ b path) (x.or y) := by
  refine ⟨?_, ?_⟩
  · cases x with
    | none => exact (hb rfl).rests
    | some landing => exact ha.rests
  · have hmap : (x.or y).map Landing.entry = (x.map Landing.entry).or (y.map Landing.entry) := by
      cases x <;> rfl
    rw [hmap]
    refine ha.first.orElse (fun hnone => ?_) before
    exact (hb (Option.map_eq_none_iff.mp hnone)).first

section Search

variable {pool : NodePool} {depth : Nat} {frame : Frame} {path : List Nibble} {above : List Frame}

theorem coversBelow_value {other : List Nibble} :
    CoversBelow { frame with rest := [.value] } path other ↔ other = path.reverse := by
  constructor
  · rintro ⟨slot, more, hspots, hslot⟩
    rw [List.mem_singleton.mp hslot] at hspots
    obtain ⟨back, rfl, hback⟩ := eq_append_of_spots hspots
    cases back with
    | nil => rw [List.append_nil]
    | cons digit back => cases hback
  · rintro rfl
    exact ⟨.value, [], rfl, List.mem_singleton_self _⟩

theorem coversBelow_child {digit : Nibble} {other : List Nibble} :
    CoversBelow { frame with rest := [.child digit] } path other ↔
      ∃ back, other = path.reverse ++ digit :: back := by
  constructor
  · rintro ⟨slot, more, hspots, hslot⟩
    rw [List.mem_singleton.mp hslot] at hspots
    obtain ⟨back, rfl, hback⟩ := eq_append_of_spots hspots
    cases back with
    | nil => cases hback
    | cons first back =>
      cases hback
      exact ⟨back, rfl⟩
  · rintro ⟨back, rfl⟩
    exact ⟨.child digit, spots back, spots_append _ _, List.mem_singleton_self _⟩

theorem coversBelow_cons {slot : Slot} {rest : List Slot} {other : List Nibble} :
    CoversBelow { frame with rest := slot :: rest } path other ↔
      CoversBelow { frame with rest := [slot] } path other ∨
        CoversBelow { frame with rest } path other := by
  unfold CoversBelow
  simp only [List.mem_cons, List.not_mem_nil, or_false]
  constructor
  · rintro ⟨first, more, hspots, hfirst | hfirst⟩
    · exact Or.inl ⟨first, more, hspots, hfirst⟩
    · exact Or.inr ⟨first, more, hspots, hfirst⟩
  · rintro (⟨first, more, hspots, hfirst⟩ | ⟨first, more, hspots, hfirst⟩)
    · exact ⟨first, more, hspots, Or.inl hfirst⟩
    · exact ⟨first, more, hspots, Or.inr hfirst⟩

/-- The entry that ends at the node itself. -/
theorem visitSlot_value (spine : Spine pool direction frame.node path above) {rest : List Slot}
    (hrest : rest = Slot.past direction .value) :
    Lands pool direction above (CoversBelow { frame with rest := [.value] } path)
      (visitSlot pool direction depth frame path .value rest) := by
  have hholds : ∀ handle, pool.Holds path.reverse handle ↔
      path.length % 2 = 0 ∧ (pool.get frame.node).value = some handle := by
    intro handle
    unfold NodePool.Holds
    rw [List.length_reverse, spine.walk]
    simp
  rw [visitSlot]
  by_cases heven : path.length % 2 = 0
  · rw [if_pos heven]
    cases hvalue : (pool.get frame.node).value with
    | none =>
      refine ⟨fun _ h => (by cases h), ?_⟩
      intro other handle hother hh
      rw [coversBelow_value.mp hother, hholds, hvalue] at hh
      cases hh.2
    | some handle =>
      refine ⟨?_, coversBelow_value.mpr rfl, (hholds handle).mpr ⟨heven, hvalue⟩, ?_⟩
      · intro landing h
        cases h
        exact ⟨_, above, rfl, hrest, spine⟩
      · intro other _ hother _
        exact Or.inl (coversBelow_value.mp hother)
  · rw [if_neg heven]
    refine ⟨fun _ h => (by cases h), ?_⟩
    intro other handle hother hh
    rw [coversBelow_value.mp hother, hholds] at hh
    exact heven hh.1

/-- The entries below a child, given that the search there comes out right. -/
theorem visitSlot_child (spine : Spine pool direction frame.node path above) {digit : Nibble}
    {rest : List Slot} (hrest : rest = Slot.past direction (.child digit))
    (ih : ∀ {child : Nat}, pool.child frame.node digit = some child →
      Spine pool direction child (digit :: path) ({ frame with rest } :: above) →
      Lands pool direction ({ frame with rest } :: above)
        (CoversBelow (.enter pool child (Slot.all direction)) (digit :: path))
        (firstBelow pool direction depth (.enter pool child (Slot.all direction))
          (digit :: path))) :
    Lands pool direction above (CoversBelow { frame with rest := [.child digit] } path)
      (visitSlot pool direction depth frame path (.child digit) rest) := by
  rw [visitSlot]
  cases hchild : pool.child frame.node digit with
  | none =>
    refine ⟨fun _ h => (by cases h), ?_⟩
    intro other handle hother hh
    obtain ⟨back, rfl⟩ := coversBelow_child.mp hother
    obtain ⟨_, id, hwalk, _⟩ := hh
    rw [NodePool.walk_append, spine.walk, Option.bind_some, NodePool.walk_cons, hchild] at hwalk
    cases hwalk
  | some child =>
    have hlands := ih hchild (.step spine rfl hchild hrest)
    rw [Option.bind_some]
    refine ⟨?_, ?_⟩
    · intro landing h
      obtain ⟨below, hbelow, rfl⟩ := Option.map_eq_some_iff.mp h
      have hrests := hlands.rests below hbelow
      simpa only [List.append_assoc, List.singleton_append] using hrests
    · rw [Option.map_map]
      refine hlands.first.congr fun other _ _ => ?_
      rw [coversBelow_child]
      constructor
      · rintro ⟨slot, more, hspots, _⟩
        obtain ⟨back, rfl, _⟩ := eq_append_of_spots hspots
        exact ⟨back, by simp⟩
      · rintro ⟨back, rfl⟩
        obtain ⟨slot, more, hmore⟩ := List.exists_cons_of_ne_nil (l := spots back) (by simp [spots])
        refine ⟨slot, more, ?_, Slot.mem_all _ _⟩
        rw [← hmore, List.reverse_cons, ← spots_append]
        simp

/-- What a node leads to by one slot comes before what it leads to by the slots past that. -/
theorem later_of_coversBelow {slot : Slot} {rest : List Slot} {p q : List Nibble}
    (hrest : rest = Slot.past direction slot)
    (hp : CoversBelow { frame with rest := [slot] } path p)
    (hq : CoversBelow { frame with rest } path q) : Later direction (spots p) (spots q) := by
  obtain ⟨first, more, hspots, hfirst⟩ := hp
  obtain ⟨second, more', hspots', hsecond⟩ := hq
  rw [List.mem_singleton.mp hfirst] at hspots
  rw [hspots, hspots', later_append]
  refine Or.inr ⟨_, rfl, Or.inl ?_⟩
  rw [← hrest]
  exact hsecond

/-- The search below a frame finds the first entry in what the frame has left. -/
theorem firstBelow_spec (tree : pool.IsTree) (deep : pool.size ≤ depth + frame.node)
    (within : frame.node < pool.size) (spine : Spine pool direction frame.node path above)
    (left : ∃ front, Slot.all direction = front ++ frame.rest) :
    Lands pool direction above (CoversBelow frame path)
      (firstBelow pool direction depth frame path) := by
  induction depth generalizing frame path above with
  | zero => exact absurd (Nat.zero_add frame.node ▸ deep) (Nat.not_le_of_lt within)
  | succ depth ih =>
    rw [firstBelow_succ]
    -- The induction is on the slots left; the frame keeps its node.
    suffices h : ∀ slots, (∃ front, Slot.all direction = front ++ slots) →
        Lands pool direction above (CoversBelow { frame with rest := slots } path)
          (firstWithRest (visitSlot pool direction depth frame path) slots) from h _ left
    intro slots
    induction slots with
    | nil =>
      intro _
      refine ⟨fun _ h => (by cases h), ?_⟩
      rintro other handle ⟨_, _, _, hslot⟩ _
      cases hslot
    | cons slot rest ihslots =>
      rintro ⟨front, hfront⟩
      have hrest : rest = Slot.past direction slot := (Slot.past_eq hfront).symm
      have hlands : Lands pool direction above (CoversBelow { frame with rest := [slot] } path)
          (visitSlot pool direction depth frame path slot rest) := by
        cases slot with
        | value => exact visitSlot_value spine hrest
        | child digit =>
          refine visitSlot_child spine hrest fun {child} hchild hspine => ?_
          have hforward := tree.forward hchild
          have hchild : pool.size ≤ depth + child := by
            have hlt : (frame.node : Nat) < child := hforward.1
            omega
          exact ih hchild hforward.2 hspine ⟨[], rfl⟩
      have hmore := ihslots ⟨front ++ [slot], by rw [hfront, List.append_assoc]; rfl⟩
      rw [firstWithRest_cons]
      have horelse := hlands.orElse (fun _ => hmore) fun p q => later_of_coversBelow hrest
      exact ⟨horelse.rests, horelse.first.congr fun other _ _ => coversBelow_cons.symm⟩

end Search

/-! ## 6. The search from a place on -/

/-- A landing with more frames above. -/
def Landing.onto (landing : Landing) (above : List Frame) : Landing :=
  ⟨⟨landing.place.frames ++ above, landing.place.path⟩, landing.handle⟩

theorem firstFrom_cons (pool : NodePool) (direction : Direction) (frame : Frame)
    (above : List Frame) (path : List Nibble) :
    firstFrom pool direction (frame :: above) path =
      ((firstBelow pool direction pool.size frame path).map (·.onto above)).or
        (firstFrom pool direction above path.tail) := by
  rw [firstFrom]
  cases firstBelow pool direction pool.size frame path <;> rfl

theorem Lands.onto {pool : NodePool} {above : List Frame} {among : List Nibble → Prop}
    {found : Option Landing} (h : Lands pool direction above among found) :
    Lands pool direction [] among (found.map (·.onto above)) := by
  refine ⟨?_, ?_⟩
  · intro landing hmap
    obtain ⟨below, hbelow, rfl⟩ := Option.map_eq_some_iff.mp hmap
    have hrests := h.rests below hbelow
    rwa [← List.append_nil (below.place.frames ++ above)] at hrests
  · rw [Option.map_map]
    exact h.first

/-- The search from a place on finds the first entry that the place covers. -/
theorem firstFrom_spec {pool : NodePool} {frame : Frame} {path : List Nibble} {above : List Frame}
    (tree : pool.IsTree) (spine : Spine pool direction frame.node path above)
    (left : ∃ front, Slot.all direction = front ++ frame.rest) :
    Lands pool direction [] (Covers (frame :: above) path)
      (firstFrom pool direction (frame :: above) path) := by
  -- What is left below the innermost frame comes first, and then what the frames above it have left.
  induction above generalizing frame path with
  | nil =>
    have hbelow := firstBelow_spec tree (Nat.le_add_right _ _)
      (tree.walk_lt tree.nonempty spine.walk) spine left
    rw [firstFrom_cons]
    refine hbelow.onto.orElse (fun _ => ?_) fun p q _ hq => hq.elim
    exact ⟨fun _ h => (by cases h), fun _ _ h => h.elim⟩
  | cons next above ih =>
    have hbelow := firstBelow_spec tree (Nat.le_add_right _ _)
      (tree.walk_lt tree.nonempty spine.walk) spine left
    rw [firstFrom_cons]
    refine hbelow.onto.orElse (fun _ => ?_) fun p q hp hq => ?_
    · obtain ⟨hspine, digit, hrest⟩ := spine.up
      obtain ⟨front, hfront⟩ := Slot.exists_all_eq direction (.child digit)
      refine ih hspine ⟨front ++ [.child digit], ?_⟩
      rw [hfront, hrest, List.append_assoc]
      rfl
    · obtain ⟨slot, more, hspots, _⟩ := hp
      rw [hspots, later_append]
      exact Or.inl ((spine.covers_iff q).mp hq)

/-! ## 7. Seeking a place -/

/-- A place from which the search goes on: its frames lie on its path. -/
def Stands (pool : NodePool) (direction : Direction) (place : Place) : Prop :=
  ∃ frame above, place.frames = frame :: above ∧ Spine pool direction frame.node place.path above ∧
    ∃ front, Slot.all direction = front ++ frame.rest

theorem Rests.stands {pool : NodePool} {place : Place} (rests : Rests pool direction place) :
    Stands pool direction place := by
  obtain ⟨frame, above, hframes, hrest, spine⟩ := rests
  obtain ⟨front, hfront⟩ := Slot.exists_all_eq direction .value
  refine ⟨frame, above, hframes, spine, front ++ [.value], ?_⟩
  rw [hfront, hrest, List.append_assoc]
  rfl

theorem Rests.mono {pool larger : NodePool} {place : Place} (rests : Rests pool direction place)
    (keeps : ∀ {id child : Nat} {digit}, pool.child id digit = some child →
      larger.child id digit = some child) : Rests larger direction place := by
  obtain ⟨frame, above, hframes, hrest, spine⟩ := rests
  exact ⟨frame, above, hframes, hrest, spine.mono keeps⟩

/-- The search from a place finds the first entry that the place covers. -/
theorem Stands.firstFrom {pool : NodePool} {place : Place} (stands : Stands pool direction place)
    (tree : pool.IsTree) :
    Lands pool direction [] (Covers place.frames place.path)
      (firstFrom pool direction place.frames place.path) := by
  obtain ⟨frame, above, hframes, spine, left⟩ := stands
  rw [hframes]
  exact firstFrom_spec tree spine left

/-- Where a path leaves the trie, an entry lies past all of it or on this side of all of it: no entry
begins like it. -/
theorem Spine.later_leaving {pool : NodePool} {id : Nat} {path : List Nibble} {above : List Frame}
    {digit : Nibble} (spine : Spine pool direction id path above)
    (leaves : pool.child id digit = none) (digits : List Nibble) {other : List Nibble}
    {handle : RowHandle} (holds : pool.Holds other handle) :
    other ≠ path.reverse ++ digit :: digits ∧
      (Later direction (spots (path.reverse ++ digit :: digits)) (spots other) ↔
        Later direction (path.reverse.map .child ++ [.child digit]) (spots other)) := by
  have hleaves : ∀ back, other ≠ path.reverse ++ digit :: back := by
    rintro back rfl
    obtain ⟨_, last, hwalk, _⟩ := holds
    rw [NodePool.walk_append, spine.walk, Option.bind_some, NodePool.walk_cons, leaves] at hwalk
    cases hwalk
  have hspots : spots (path.reverse ++ digit :: digits) =
      (path.reverse.map .child ++ [.child digit]) ++ spots digits := by
    rw [spots_append, spots_cons, List.append_assoc]
    rfl
  refine ⟨hleaves digits, ?_⟩
  rw [hspots, later_append]
  refine or_iff_left ?_
  rintro ⟨rest, hrest, _⟩
  rw [List.append_assoc] at hrest
  obtain ⟨back, hback, hslots⟩ := eq_append_of_spots hrest
  cases back with
  | nil => cases hslots
  | cons first back =>
    cases hslots
    exact hleaves back hback

/-- Among the entries, the place that was sought covers those past the path, and the one at its end
if that is asked for. The path may leave the trie on the way: then nothing begins like it. -/
theorem seek_spec {pool : NodePool} {id : Nat} {above : Place} (inclusive : Bool)
    (digits : List Nibble) (spine : Spine pool direction id above.path above.frames) :
    let place := Place.seek pool direction inclusive above id digits
    let start := above.path.reverse ++ digits
    Stands pool direction place ∧ ∀ other handle, pool.Holds other handle →
      (Covers place.frames place.path other ↔
        inclusive = true ∧ other = start ∨ Later direction (spots start) (spots other)) := by
  -- Along the digits, with the nodes passed as the spine: the path ends at a node, leads on to a child,
  -- or breaks off where there is none.
  induction digits generalizing id above with
  | nil =>
    obtain ⟨front, hfront⟩ := Slot.exists_all_eq direction .value
    rw [List.append_nil]
    let frame : Frame := .enter pool id (Slot.past direction .value)
    have hpast : ∀ other, Covers (frame :: above.frames) above.path other ↔
        Later direction (spots above.path.reverse) (spots other) :=
      fun other => Spine.covers_cons rfl (spine.covers_iff other)
    cases inclusive with
    | true =>
      have honward : Slot.onward direction .value = .value :: Slot.past direction .value :=
        Slot.onward_eq hfront
      have hplace : Place.seek pool direction true above id [] =
          { above with
            frames := { frame with rest := .value :: frame.rest } :: above.frames } := by
        rw [Place.seek, if_pos rfl, honward]
        rfl
      rw [hplace]
      refine ⟨⟨_, _, rfl, spine, front, hfront⟩, fun other _ _ => ?_⟩
      rw [← hpast, Covers, Covers, coversBelow_cons, coversBelow_value, or_assoc]
      simp only [true_and]
    | false =>
      refine ⟨⟨frame, above.frames, rfl, spine, front ++ [.value], ?_⟩, fun other _ _ => ?_⟩
      · rw [hfront, List.append_assoc]
        rfl
      · simp only [Bool.false_eq_true, false_and, false_or]
        exact hpast other
  | cons digit digits ih =>
    let frame : Frame := .enter pool id (Slot.past direction (.child digit))
    rw [Place.seek]
    cases hchild : pool.child id digit with
    | some child =>
      let lower : Place := ⟨frame :: above.frames, digit :: above.path⟩
      have hlower : Spine pool direction child lower.path lower.frames :=
        .step spine rfl hchild rfl
      have hih := ih hlower
      simpa only [lower, List.reverse_cons, List.append_assoc, List.singleton_append] using hih
    | none =>
      obtain ⟨front, hfront⟩ := Slot.exists_all_eq direction (.child digit)
      refine ⟨⟨frame, above.frames, rfl, spine, front ++ [.child digit], ?_⟩, ?_⟩
      · rw [hfront, List.append_assoc]
        rfl
      · intro other handle hholds
        obtain ⟨hne, hlater⟩ := spine.later_leaving hchild digits hholds
        rw [hlater, or_iff_right fun h => hne h.2]
        exact Spine.covers_cons rfl (spine.covers_iff other)

end Trie
end SnapshotStore
