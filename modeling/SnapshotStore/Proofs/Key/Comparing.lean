import Mathlib
import SnapshotStore.Proofs.Key.Spec

/-!
# When comparing parts is comparing keys

A key is the bytes of its parts one after another. Whether two records have the same key is asked often,
on every update for every index, and it is asked part by part, so that neither key has to be built. Parts
that are equal make equal keys (`KeySpec.Keyed.of_sameKey`).

The other way around takes more, because a key does not show where its parts end. If two parts are
counted, the last byte of the one may as well be the first of the other: the keys are equal and the
records compare unequal (`moved_boundary`). An update from the one record to the other then treats the
key as given up and taken anew, although the entry stays the same.

A field that fills its region has the same length in all records of a schema. So if at most one of the
parts is counted, the length of the whole key settles the lengths of all parts, and comparing parts is
comparing keys (`KeySpec.sameKey_of_countedOnce`).
-/

namespace SnapshotStore

open Fallible

/-! ## 1. The lengths of parts -/

/-- The field at the position is counted. -/
def Schema.isCounted (schema : Schema) (i : Nat) : Bool :=
  schema.fields[i]?.any fun field =>
    match field.storage with
    | .fixed _ => false
    | .counted _ _ => true

namespace Record

variable {a b : Record}

theorem length_bytes (record : Record) : record.bytes.length = record.schema.rowLength := by
  by_contra hlength
  have haccepted := record.accepted
  rw [Schema.check, if_pos hlength] at haccepted
  cases haccepted

/-- A field that is not counted is as long in one record as in another. -/
theorem length_field_of_not_counted (same : a.schema = b.schema) {i : Nat}
    (filled : a.schema.isCounted i = false) {x y : Bytes} (hx : a.field i = .ok x)
    (hy : b.field i = .ok y) : x.length = y.length := by
  rw [field, Schema.field] at hx hy
  rw [← same] at hy
  rw [Schema.isCounted] at filled
  cases hfield : a.schema.fields[i]? with
  | none =>
    rw [hfield] at hx
    cases hx
  | some field =>
    rw [hfield, Option.any_some] at filled
    rw [hfield, ok_bind, Field.data] at hx hy
    cases hstorage : field.storage with
    | counted counter max =>
      rw [hstorage] at filled
      cases filled
    | fixed size =>
      rw [hstorage] at hx hy
      have hlength : a.bytes.length = b.bytes.length := by
        rw [length_bytes, length_bytes, same]
      rw [← Except.ok.inj hx, ← Except.ok.inj hy]
      simp only [Field.slice, List.length_take, List.length_drop, hlength]

section Parts

variable {positions : List Nat} {x y : List Bytes} (same : a.schema = b.schema)
include same

theorem map_length_of_not_counted (filled : positions.countP a.schema.isCounted = 0)
    (hx : positions.mapM a.field = .ok x) (hy : positions.mapM b.field = .ok y) :
    x.map List.length = y.map List.length := by
  induction positions generalizing x y with
  | nil =>
    rw [List.mapM_nil] at hx hy
    cases hx
    cases hy
    rfl
  | cons i rest ih =>
    obtain ⟨u, us, hu, hus, rfl⟩ := KeySpec.mapM_cons_eq_ok.mp hx
    obtain ⟨v, vs, hv, hvs, rfl⟩ := KeySpec.mapM_cons_eq_ok.mp hy
    rw [List.countP_eq_zero, List.forall_mem_cons, ← List.countP_eq_zero] at filled
    have hfirst := length_field_of_not_counted same (Bool.eq_false_iff.mpr filled.1) hu hv
    rw [List.map_cons, List.map_cons, hfirst, ih filled.2 hus hvs]

/-- If at most one part is counted, the length of the whole settles the lengths of all parts. -/
theorem map_length_of_countedOnce (once : positions.countP a.schema.isCounted ≤ 1)
    (hx : positions.mapM a.field = .ok x) (hy : positions.mapM b.field = .ok y)
    (whole : x.flatten.length = y.flatten.length) : x.map List.length = y.map List.length := by
  induction positions generalizing x y with
  | nil =>
    rw [List.mapM_nil] at hx hy
    cases hx
    cases hy
    rfl
  | cons i rest ih =>
    obtain ⟨u, us, hu, hus, rfl⟩ := KeySpec.mapM_cons_eq_ok.mp hx
    obtain ⟨v, vs, hv, hvs, rfl⟩ := KeySpec.mapM_cons_eq_ok.mp hy
    rw [List.flatten_cons, List.flatten_cons, List.length_append, List.length_append] at whole
    rw [List.map_cons, List.map_cons]
    cases hcounted : a.schema.isCounted i with
    | false =>
      have hfirst := length_field_of_not_counted same hcounted hu hv
      rw [List.countP_cons_of_neg (by rw [hcounted]; exact Bool.false_ne_true)] at once
      rw [hfirst, ih once hus hvs (by omega)]
    | true =>
      -- This is the one; what it leaves of the whole is known from the others.
      rw [List.countP_cons_of_pos hcounted] at once
      have hrest := map_length_of_not_counted same (by omega) hus hvs
      have hsums : us.flatten.length = vs.flatten.length := by
        rw [List.length_flatten, List.length_flatten, hrest]
      rw [hrest, show u.length = v.length by omega]

end Parts
end Record

/-! ## 2. Keys -/

namespace KeySpec

/-- At most one of the parts is a counted field. -/
def CountedOnce (spec : KeySpec) (schema : Schema) : Prop :=
  spec.parts.countP schema.isCounted ≤ 1

variable {spec : KeySpec} {a b : Record}

/-- Records whose parts can be read compare equal if their parts are equal, one by one. -/
theorem sameKey_eq {x y : List Bytes} (hx : spec.partsOf a = .ok x) (hy : spec.partsOf b = .ok y) :
    spec.sameKey a b = .ok (decide (x = y)) :=
  sameParts_of_mapM hx hy

/-- Records of one schema compare equal if and only if they have the same key, as long as at most one
part is counted. -/
theorem sameKey_of_countedOnce (same : a.schema = b.schema) (once : spec.CountedOnce a.schema)
    {key key' : Bytes} (ha : spec.keyOf a = .ok key) (hb : spec.keyOf b = .ok key') :
    spec.sameKey a b = .ok (decide (key = key')) := by
  obtain ⟨x, hx, rfl⟩ := keyOf_eq_ok.mp ha
  obtain ⟨y, hy, rfl⟩ := keyOf_eq_ok.mp hb
  rw [sameKey_eq hx hy]
  congr 1
  rw [decide_eq_decide]
  constructor
  · rintro rfl
    rfl
  · intro hkeys
    have hlengths := Record.map_length_of_countedOnce same once hx hy (congrArg List.length hkeys)
    exact List.eq_iff_flatten_eq.mpr ⟨hkeys, hlengths⟩

/-! ## 3. Two counted parts -/

/-- Two counted fields of at most two bytes each. -/
def twoCounted : Schema := ⟨0, [⟨"a", 0, .counted 1 2⟩, ⟨"b", 3, .counted 1 2⟩], 6⟩

/-- A key made up of both. -/
def byBoth : KeySpec := { name := "by both", parts := [0, 1], unique := true }

/-- The key `abc`, of which two bytes are in the first part. -/
def dividedLate : Record := ⟨twoCounted, [2, 97, 98, 1, 99, 0], by decide⟩

/-- The key `abc`, of which one byte is in the first part. -/
def dividedEarly : Record := ⟨twoCounted, [1, 97, 0, 2, 98, 99], by decide⟩

/-- With two counted parts, records of one key can compare unequal. -/
theorem moved_boundary : byBoth.keyOf dividedLate = .ok [97, 98, 99] ∧
    byBoth.keyOf dividedEarly = .ok [97, 98, 99] ∧
    byBoth.sameKey dividedLate dividedEarly = .ok false := by
  decide

end KeySpec
end SnapshotStore
