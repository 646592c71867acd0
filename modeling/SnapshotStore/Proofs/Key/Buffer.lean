import Mathlib
import SnapshotStore.Key.Buffer
import SnapshotStore.Proofs.Key.Codec
import SnapshotStore.Proofs.Key.Spec

/-!
# Whatever the buffer held before

What is built in a buffer is what the record alone determines: each way to use a buffer comes out as the
function that builds the same bytes from nothing, and the leftovers of earlier keys are nowhere in it.
The parts go in behind what is there (`write_of_parts`, `writeEscaped_of_parts`), and nothing is there,
as the buffer was cleared.

The rest of the theory is about those functions. Put together it says that a record, its entry and a
lookup speak of one key, and that matching in place finds the entries of that key without building it
(`carries_iff`).
-/

namespace SnapshotStore

open Fallible

/-! ## 1. Matching in place -/

namespace KeySpec

/-- A match has read all parts. -/
theorem exists_parts_of_match {record : Record} {positions : List Nat} {stored : Bytes}
    (h : matchParts record positions stored = .ok true) :
    ∃ parts, positions.mapM record.field = .ok parts := by
  induction positions generalizing stored with
  | nil => exact ⟨[], rfl⟩
  | cons i rest ih =>
    rw [matchParts] at h
    obtain ⟨data, hdata, h⟩ := bind_eq_ok.mp h
    split at h
    · obtain ⟨more, hmore⟩ := ih h
      exact ⟨data :: more, mapM_cons_eq_ok.mpr ⟨data, more, hdata, hmore, rfl⟩⟩
    · cases h

/-- A byte string is matched exactly if the key of the record can be read and the byte string is that
key, encoded, with eight bytes behind it. -/
theorem carries_iff {spec : KeySpec} {record : Record} {stored : Bytes} :
    spec.carries record stored = .ok true ↔ RowHandle.width ≤ stored.length ∧
      ∃ key, spec.keyOf record = .ok key ∧
        Bytes.dropLast RowHandle.width stored = Key.encode key := by
  rw [carries]
  split
  · rename_i hshort
    simp [Nat.not_le.mpr hshort]
  · rename_i hlong
    refine Iff.trans ?_ (and_iff_right (Nat.not_lt.mp hlong)).symm
    constructor
    · intro h
      obtain ⟨parts, hparts⟩ := exists_parts_of_match h
      rw [matchParts_eq hparts] at h
      exact ⟨parts.flatten, keyOf_eq_ok.mpr ⟨parts, hparts, rfl⟩, beq_iff_eq.mp (Except.ok.inj h)⟩
    · rintro ⟨key, hkey, hstored⟩
      obtain ⟨parts, hparts, rfl⟩ := keyOf_eq_ok.mp hkey
      rw [matchParts_eq hparts, hstored]
      exact congrArg Except.ok (beq_iff_eq.mpr rfl)

end KeySpec

/-! ## 2. What is built -/

namespace KeyBuffer

variable {buffer : KeyBuffer} {record : Record} {spec : KeySpec}

/-- Parts go in behind what is there. -/
theorem write_of_parts {positions : List Nat} {parts : List Bytes}
    (h : positions.mapM record.field = .ok parts) :
    buffer.write record positions = (buffer.append parts.flatten, .ok ()) := by
  induction positions generalizing buffer parts with
  | nil =>
    rw [List.mapM_nil] at h
    cases h
    rw [write, append, List.flatten_nil, List.append_nil]
  | cons i rest ih =>
    obtain ⟨data, more, hdata, hmore, rfl⟩ := KeySpec.mapM_cons_eq_ok.mp h
    rw [write, hdata]
    dsimp only
    rw [ih hmore, append, append, append, List.flatten_cons, List.append_assoc]

/-- Escaped parts do too, and are counted as they are. -/
theorem writeEscaped_of_parts {positions : List Nat} {parts : List Bytes}
    (h : positions.mapM record.field = .ok parts) (length : Nat) :
    buffer.writeEscaped record length positions =
      (buffer.append (Key.escape parts.flatten), .ok (length + parts.flatten.length)) := by
  induction positions generalizing buffer parts length with
  | nil =>
    rw [List.mapM_nil] at h
    cases h
    rw [writeEscaped, append, List.flatten_nil, Key.escape_nil, List.append_nil]
    rfl
  | cons i rest ih =>
    obtain ⟨data, more, hdata, hmore, rfl⟩ := KeySpec.mapM_cons_eq_ok.mp h
    rw [writeEscaped, hdata]
    dsimp only
    rw [ih hmore, append, append, append, List.flatten_cons, Key.escape_append, List.append_assoc,
      List.length_append, Nat.add_assoc]

/-- Either way it is the first part that cannot be read that gives the error. -/
theorem write_of_error {positions : List Nat} {error : Error}
    (h : positions.mapM record.field = .error error) (buffer : KeyBuffer) :
    (buffer.write record positions).2 = .error error ∧
      ∀ length, (buffer.writeEscaped record length positions).2 = .error error := by
  induction positions generalizing buffer with
  | nil =>
    rw [List.mapM_nil] at h
    cases h
  | cons i rest ih =>
    rw [List.mapM_cons] at h
    cases hdata : record.field i with
    | error e =>
      rw [hdata, error_bind] at h
      cases h
      -- Both read a part before they put anything in.
      rw [write, hdata]
      refine ⟨rfl, fun length => ?_⟩
      rw [writeEscaped, hdata]
    | ok data =>
      have hrest : rest.mapM record.field = .error error := by
        rw [hdata, ok_bind] at h
        cases hmore : rest.mapM record.field with
        | error e =>
          rw [hmore, error_bind] at h
          exact h
        | ok more =>
          rw [hmore] at h
          cases h
      rw [write, hdata]
      refine ⟨(ih hrest _).1, fun length => ?_⟩
      rw [writeEscaped, hdata]
      exact (ih hrest _).2 _

theorem finish_snd (buffer : KeyBuffer) (length : Nat) (rest : Bytes) :
    (buffer.finish length rest).2 =
      (Key.checkLength buffer.limit length).map fun () => buffer.bytes ++ rest := by
  rw [finish]
  cases Key.checkLength buffer.limit length <;> rfl

/-- A key is built as from nothing. -/
theorem build_snd (buffer : KeyBuffer) (spec : KeySpec) (record : Record) :
    (buffer.build spec record).2 = spec.key buffer.limit record := by
  rw [build, KeySpec.key, KeySpec.keyOf]
  cases hparts : spec.partsOf record with
  | error error =>
    have herror := (write_of_error hparts buffer.clear).1
    cases hwrite : buffer.clear.write record spec.parts with
    | mk after result =>
      rw [hwrite] at herror
      dsimp only at herror
      rw [herror]
      rfl
  | ok parts =>
    rw [write_of_parts hparts]
    dsimp only
    rw [finish_snd, List.append_nil]
    simp only [append, clear, List.nil_append, ok_bind, pure_eq]
    cases Key.checkLength buffer.limit parts.flatten.length <;> rfl

/-- So is an entry. -/
theorem buildEntry_snd (buffer : KeyBuffer) (spec : KeySpec) (record : Record)
    (handle : RowHandle) :
    (buffer.buildEntry spec record handle).2 = spec.entry buffer.limit record handle := by
  rw [buildEntry, KeySpec.entry]
  cases hparts : spec.partsOf record with
  | error error =>
    have herror := (write_of_error hparts buffer.clear).2 0
    cases hwrite : buffer.clear.writeEscaped record 0 spec.parts with
    | mk after result =>
      rw [hwrite] at herror
      dsimp only at herror
      rw [herror]
      rfl
  | ok parts =>
    rw [writeEscaped_of_parts hparts]
    dsimp only
    rw [finish_snd, Nat.zero_add]
    simp only [append, clear, List.nil_append, ok_bind, pure_eq, KeySpec.flatten_map_escape,
      List.append_assoc]
    cases Key.checkLength buffer.limit parts.flatten.length <;> rfl

/-- So is the beginning of the entries of a key. -/
theorem buildLookup_snd (buffer : KeyBuffer) (key : Bytes) :
    (buffer.buildLookup key).2 = Key.lookup buffer.limit key := by
  rw [buildLookup, finish_snd, Key.lookup]
  show (Key.checkLength buffer.limit key.length).map _ = _
  cases Key.checkLength buffer.limit key.length <;> rfl

theorem foldl_append (buffer : KeyBuffer) (parts : List Bytes) :
    parts.foldl append buffer = buffer.append parts.flatten := by
  induction parts generalizing buffer with
  | nil =>
    rw [append, List.flatten_nil, List.append_nil]
    rfl
  | cons part parts ih =>
    rw [List.foldl_cons, ih, append, append, append, List.flatten_cons, List.append_assoc]

/-- So is a key that is given in parts. -/
theorem buildParts_snd (buffer : KeyBuffer) (parts : List Bytes) :
    (buffer.buildParts parts).2 = Key.join buffer.limit parts := by
  rw [buildParts, foldl_append, finish_snd, List.append_nil, Key.join]
  simp only [append, clear, List.nil_append]
  cases Key.checkLength buffer.limit parts.flatten.length <;> rfl

/-! ## 3. One key -/

/-- All ways to a key describe the same one, in buffers of one limit and whatever these held before: an
entry can be built exactly if the key can, and is the encoded key with the row behind it; it is read
back as the key and the row; a lookup of the key goes by the encoded key, with which the entry begins;
and the byte strings that a match in place finds are those that begin with that and go on for eight
bytes. -/
theorem paths_describe_one_key (spec : KeySpec) (record : Record) (handle : RowHandle)
    (limit : Nat) (held held' held'' : Bytes) :
    ((KeyBuffer.mk limit held').buildEntry spec record handle).2 =
        ((KeyBuffer.mk limit held).build spec record).2.map
          (fun key => Key.encode key ++ Bytes.bigEndian 8 handle.val) ∧
      ∀ key, ((KeyBuffer.mk limit held).build spec record).2 = .ok key →
        Key.decode? (Key.encode key ++ Bytes.bigEndian 8 handle.val) = some (key, handle) ∧
        ((KeyBuffer.mk limit held'').buildLookup key).2 = .ok (Key.encode key) ∧
        Key.encode key <+: Key.encode key ++ Bytes.bigEndian 8 handle.val ∧
        ∀ stored : Bytes, spec.carries record stored = .ok true ↔
          8 ≤ stored.length ∧ stored.take (stored.length - 8) = Key.encode key := by
  rw [buildEntry_snd, build_snd]
  refine ⟨KeySpec.entry_eq_map spec limit record handle, fun key hbuilt => ?_⟩
  obtain ⟨hkey, hle⟩ := KeySpec.key_eq_ok.mp hbuilt
  refine ⟨Key.decode?_entry key handle, ?_, List.prefix_append _ _, fun stored => ?_⟩
  · rw [buildLookup_snd]
    exact Key.lookup_of_le hle
  · rw [KeySpec.carries_iff]
    refine and_congr_right fun _ => ?_
    constructor
    · rintro ⟨found, hfound, hstored⟩
      rw [hkey] at hfound
      rw [Except.ok.inj hfound]
      exact hstored
    · exact fun hstored => ⟨key, hkey, hstored⟩

/-- A field that ends in a zero byte, followed by one that is empty. -/
def zeroThenEmpty : Record :=
  ⟨⟨0, [⟨"a", 0, .fixed 2⟩, ⟨"b", 2, .counted 1 2⟩], 5⟩, [7, 0, 0, 0, 0], rfl⟩

/-- An index on both of its fields. -/
def onBoth : KeySpec := { name := "by both", parts := [0, 1], unique := true }

theorem zeroThenEmpty_one_key : ∃ key row : Bytes,
    ((KeyBuffer.mk 2 [5, 5]).build onBoth zeroThenEmpty).2 = .ok key ∧ key = [7, 0] ∧
    Key.decode? (Key.encode key ++ Bytes.bigEndian 8 9) = some (key, ⟨9, by decide, by decide⟩) ∧
    ((KeyBuffer.mk 2 [0]).buildLookup key).2 = .ok (Key.encode key) ∧
    Key.encode key <+: Key.encode key ++ Bytes.bigEndian 8 9 ∧
    row = [1, 2, 3, 4, 5, 6, 7, 8] ∧
    onBoth.carries zeroThenEmpty ([7, 0, 255, 0, 0] ++ row) = .ok true := by
  have hbuilt : ((KeyBuffer.mk 2 [5, 5]).build onBoth zeroThenEmpty).2 = .ok [7, 0] := by rfl
  obtain ⟨hdecode, hlookup, hbegins, hcarries⟩ := (paths_describe_one_key onBoth zeroThenEmpty
    ⟨9, by decide, by decide⟩ 2 [5, 5] [] [0]).2 [7, 0] hbuilt
  exact ⟨_, _, hbuilt, rfl, hdecode, hlookup, hbegins, rfl, (hcarries _).mpr (by decide)⟩

end KeyBuffer
end SnapshotStore
