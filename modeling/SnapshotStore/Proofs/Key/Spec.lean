import Mathlib
import SnapshotStore.Key.Spec
import SnapshotStore.Proofs.Fallible
import SnapshotStore.Proofs.Key.Stored

/-!
# One key, four ways to look at it

A key specification reads a record in four ways: it builds the record's key, builds its entry for a
row, matches an entry against it in place, and compares it with another record. For a record whose
key *can* be built (`Keyed`) the four agree: the entry is `Key.entry` of the key, an entry is matched
exactly if it is one of that key, and records that compare equal have the same key.

`Keyed` is what a table guarantees of every version in every index, so the theory of tables never
meets the errors of these functions.
-/

namespace SnapshotStore

namespace Key

theorem checkLength_eq_ok {limit length : Nat} :
    checkLength limit length = .ok () ↔ length ≤ limit := by
  rw [checkLength]
  split
  · rename_i hlong
    simp [Nat.not_le.mpr hlong]
  · rename_i hshort
    simp [Nat.not_lt.mp hshort]

theorem lookup_of_le {limit : Nat} {key : Bytes} (h : key.length ≤ limit) :
    lookup limit key = .ok (encode key) := by
  rw [lookup, checkLength_eq_ok.mpr h]
  rfl

end Key

namespace KeySpec

open Fallible

/-- The key of the record can be built, and is within the limit. -/
def Keyed (spec : KeySpec) (limit : Nat) (record : Record) (key : Bytes) : Prop :=
  spec.keyOf record = .ok key ∧ key.length ≤ limit

theorem Keyed.unique {spec : KeySpec} {limit : Nat} {record : Record} {a b : Bytes}
    (ha : spec.Keyed limit record a) (hb : spec.Keyed limit record b) : a = b := by
  have h := ha.1.symm.trans hb.1
  exact Except.ok.inj h

/-! ## 1. Parts -/

theorem keyOf_eq_ok {spec : KeySpec} {record : Record} {key : Bytes} :
    spec.keyOf record = .ok key ↔ ∃ parts, spec.partsOf record = .ok parts ∧ parts.flatten = key := by
  unfold keyOf
  cases h : spec.partsOf record with
  | error e => simp
  | ok parts => simp

/-- The parts of a record are read one after another. -/
theorem mapM_cons_eq_ok {α : Type} {f : Nat → Except Error α} {i : Nat} {rest : List Nat}
    {values : List α} :
    (i :: rest).mapM f = .ok values ↔
      ∃ a more, f i = .ok a ∧ rest.mapM f = .ok more ∧ values = a :: more := by
  rw [List.mapM_cons]
  cases hi : f i with
  | error e => simp
  | ok a =>
    cases hr : rest.mapM f with
    | error e => simp
    | ok more => simp [eq_comm]

/-! ## 2. Entries -/

theorem flatten_map_escape (parts : List Bytes) :
    (parts.map Key.escape).flatten = Key.escape parts.flatten := by
  induction parts with
  | nil => rfl
  | cons part parts ih => rw [List.map_cons, List.flatten_cons, List.flatten_cons, ih, Key.escape_append]

theorem key_eq_ok {spec : KeySpec} {limit : Nat} {record : Record} {key : Bytes} :
    spec.key limit record = .ok key ↔ spec.Keyed limit record key := by
  rw [KeySpec.key, bind_eq_ok, Keyed]
  constructor
  · rintro ⟨found, hfound, h⟩
    obtain ⟨_, hlength, hkey⟩ := bind_eq_ok.mp h
    rw [← Except.ok.inj hkey]
    exact ⟨hfound, Key.checkLength_eq_ok.mp hlength⟩
  · rintro ⟨hkey, hle⟩
    refine ⟨key, hkey, ?_⟩
    rw [Key.checkLength_eq_ok.mpr hle, ok_bind, pure_eq]

/-- A key that can be built has an entry for every row, and one that cannot has none, for the same
reason. -/
theorem entry_eq_map (spec : KeySpec) (limit : Nat) (record : Record) (row : RowHandle) :
    spec.entry limit record row = (spec.key limit record).map fun key => Key.entry key row := by
  rw [entry, KeySpec.key, keyOf]
  cases spec.partsOf record with
  | error error => rfl
  | ok parts =>
    simp only [ok_bind, pure_eq, flatten_map_escape]
    cases Key.checkLength limit parts.flatten.length <;> rfl

/-- The entry of a record is the entry of its key. -/
theorem entry_eq_ok {spec : KeySpec} {limit : Nat} {record : Record} {row : RowHandle}
    {e : Bytes} :
    spec.entry limit record row = .ok e ↔
      ∃ key, spec.Keyed limit record key ∧ e = Key.entry key row := by
  simp only [← key_eq_ok]
  rw [entry_eq_map]
  cases spec.key limit record with
  | error error => simp [Except.map]
  | ok key => simp [Except.map, eq_comm]

theorem Keyed.entry_eq {spec : KeySpec} {limit : Nat} {record : Record} {key : Bytes}
    (h : spec.Keyed limit record key) (row : RowHandle) :
    spec.entry limit record row = .ok (Key.entry key row) :=
  entry_eq_ok.mpr ⟨key, h, rfl⟩

/-! ## 3. Matching in place -/

theorem matchParts_eq {record : Record} {positions : List Nat} {parts : List Bytes}
    (h : positions.mapM record.field = .ok parts) (stored : Bytes) :
    matchParts record positions stored = .ok (stored == Key.escape parts.flatten ++ Key.terminator) := by
  induction positions generalizing parts stored with
  | nil =>
    rw [List.mapM_nil] at h
    cases h
    rfl
  | cons i rest ih =>
    obtain ⟨a, more, hi, hrest, rfl⟩ := mapM_cons_eq_ok.mp h
    rw [matchParts, hi]
    simp only [ok_bind, List.flatten_cons, Key.escape_append, List.append_assoc]
    cases hs : Key.stripEscaped? a stored with
    | some tail =>
      rw [Key.stripEscaped?_eq_some_iff] at hs
      subst hs
      simp [ih hrest]
    | none =>
      -- What cannot be stripped off is no beginning, so the whole cannot be equal either.
      have hne : stored ≠ Key.escape a ++ (Key.escape more.flatten ++ Key.terminator) := by
        intro heq
        rw [Key.stripEscaped?_eq_some_iff.mpr heq] at hs
        cases hs
      simp [hne]

/-- A record carries exactly the entries of its key. -/
theorem Keyed.carries_entry {spec : KeySpec} {limit : Nat} {record : Record} {key : Bytes}
    (h : spec.Keyed limit record key) (other : Bytes) (row : RowHandle) :
    spec.carries record (Key.entry other row) = .ok (decide (key = other)) := by
  obtain ⟨parts, hparts, rfl⟩ := keyOf_eq_ok.mp h.1
  have hlen : ¬ (Key.entry other row).length < RowHandle.width := by
    simp [Key.entry]
  rw [carries, if_neg hlen, Key.dropLast_entry, matchParts_eq hparts]
  congr 1
  rw [Bool.eq_iff_iff, beq_iff_eq, decide_eq_true_iff]
  constructor
  · intro heq
    exact (Key.encode_injective heq).symm
  · rintro rfl
    rfl

/-! ## 4. Comparing records -/

theorem sameParts_of_mapM {a b : Record} {positions : List Nat} {x y : List Bytes}
    (ha : positions.mapM a.field = .ok x) (hb : positions.mapM b.field = .ok y) :
    sameParts a b positions = .ok (decide (x = y)) := by
  induction positions generalizing x y with
  | nil =>
    rw [List.mapM_nil] at ha hb
    cases ha
    cases hb
    rfl
  | cons i rest ih =>
    obtain ⟨u, us, hu, hus, rfl⟩ := mapM_cons_eq_ok.mp ha
    obtain ⟨v, vs, hv, hvs, rfl⟩ := mapM_cons_eq_ok.mp hb
    rw [sameParts, hu, hv]
    by_cases huv : u = v
    · simp [huv, ih hus hvs]
    · simp [huv]

/-- Parts that compare equal read the same. -/
theorem mapM_of_sameParts {a b : Record} {positions : List Nat} {parts : List Bytes}
    (ha : positions.mapM a.field = .ok parts) (same : sameParts a b positions = .ok true) :
    positions.mapM b.field = .ok parts := by
  induction positions generalizing parts with
  | nil =>
    rw [List.mapM_nil] at ha ⊢
    exact ha
  | cons i rest ih =>
    obtain ⟨u, us, hu, hus, rfl⟩ := mapM_cons_eq_ok.mp ha
    rw [sameParts, hu] at same
    cases hv : b.field i with
    | error e => simp [hv] at same
    | ok v =>
      simp only [hv, ok_bind] at same
      by_cases huv : u = v
      · rw [if_pos huv] at same
        exact mapM_cons_eq_ok.mpr ⟨v, us, hv, ih hus same, by rw [huv]⟩
      · rw [if_neg huv] at same
        simp at same

/-- Records that compare equal have the same key. -/
theorem Keyed.of_sameKey {spec : KeySpec} {limit : Nat} {a b : Record} {key : Bytes}
    (h : spec.Keyed limit a key) (same : spec.sameKey a b = .ok true) : spec.Keyed limit b key := by
  obtain ⟨parts, hparts, rfl⟩ := keyOf_eq_ok.mp h.1
  exact ⟨keyOf_eq_ok.mpr ⟨parts, mapM_of_sameParts hparts same, rfl⟩, h.2⟩

end KeySpec
end SnapshotStore
