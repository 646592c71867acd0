import Mathlib
import SnapshotStore.Proofs.Key.Stored

/-!
# Entries are read back and nothing else is

A byte string is an entry in one way at most, and `decode?` finds it. What makes this more than a round
trip is the other half: a byte string that was damaged, cut short or never written by an index is refused
and never read as the entry of some key (`decode_exact`).

The last eight bytes are read as a handle whatever they look like, so the escaped key is read from what
stands before them alone. There a zero byte may go on in two ways only: with a 255 it stands for a zero of
the key, and with another zero it ends the key, if it is the last. The case split of `unescape` is this.
-/

namespace SnapshotStore

/-! ## 1. Handles -/

namespace RowHandle

theorem ofNat?_eq_some_iff {n : Nat} {handle : RowHandle} :
    ofNat? n = some handle ↔ handle.val = n := by
  constructor
  · intro h
    rw [ofNat?] at h
    split at h
    · cases h
      rfl
    · cases h
  · rintro rfl
    exact ofNat?_val handle

/-- A handle is read from the byte strings that end with it. -/
theorem ofSuffix?_eq_some_iff {stored : Bytes} {handle : RowHandle} :
    ofSuffix? stored = some handle ↔ ∃ front, stored = front ++ handle.toBytes := by
  constructor
  · intro h
    rw [ofSuffix?] at h
    split at h
    · cases h
    · rename_i hlong
      have hlength : (Bytes.takeLast width stored).length = width := by
        rw [Bytes.takeLast, List.length_drop]
        omega
      have hbytes : handle.toBytes = Bytes.takeLast width stored := by
        rw [toBytes, ofNat?_eq_some_iff.mp h]
        exact (congrArg (Bytes.bigEndian · _) hlength.symm).trans (Bytes.bigEndian_ofBigEndian _)
      refine ⟨Bytes.dropLast width stored, ?_⟩
      rw [hbytes]
      exact (List.take_append_drop _ stored).symm
  · rintro ⟨front, rfl⟩
    exact ofSuffix?_append_toBytes front handle

end RowHandle

namespace Key

/-! ## 2. Escaped keys -/

/-- What can be read as an escaped and terminated key is one. -/
theorem eq_encode_of_unescape {body key : Bytes} (h : unescape body = some key) :
    body = encode key := by
  fun_induction unescape body generalizing key with
  | case1 => cases h
  | case2 => cases h
  | case3 rest ih =>
    -- An escaped zero.
    obtain ⟨tail, htail, rfl⟩ := Option.map_eq_some_iff.mp h
    rw [ih htail, encode, encode, escape_zero_cons]
    rfl
  | case4 c rest _ hend =>
    cases h
    rw [hend.1, hend.2]
    rfl
  | case5 => cases h
  | case6 b rest hb ih =>
    obtain ⟨tail, htail, rfl⟩ := Option.map_eq_some_iff.mp h
    rw [ih htail, encode, encode, escape_cons_of_ne hb]
    rfl

theorem unescape_eq_some_iff {body key : Bytes} : unescape body = some key ↔ body = encode key := by
  constructor
  · exact eq_encode_of_unescape
  · rintro rfl
    exact unescape_encode key

/-! ## 3. Entries -/

/-- What is read as an entry is the entry. -/
theorem eq_entry_of_decode? {stored key : Bytes} {handle : RowHandle}
    (h : decode? stored = some (key, handle)) : stored = entry key handle := by
  obtain ⟨found, hfound, hrest⟩ := Option.bind_eq_some_iff.mp h
  obtain ⟨body, hbody, hpair⟩ := Option.bind_eq_some_iff.mp hrest
  obtain ⟨rfl, rfl⟩ := Prod.mk.inj (Option.some.inj hpair)
  obtain ⟨front, rfl⟩ := RowHandle.ofSuffix?_eq_some_iff.mp hfound
  rw [Bytes.dropLast_append_of_length _ _ found.length_toBytes] at hbody
  rw [entry, unescape_eq_some_iff.mp hbody]

/-- A byte string is read as a key and a row exactly if it is the encoded key with the eight bytes of the
row behind it, and what is no such byte string is refused. -/
theorem decode_exact (stored : Bytes) :
    (∀ key handle, decode? stored = some (key, handle) ↔
      stored = encode key ++ Bytes.bigEndian 8 handle.val) ∧
    (decode? stored = none ↔
      ∀ key (handle : RowHandle), stored ≠ encode key ++ Bytes.bigEndian 8 handle.val) := by
  have hread : ∀ key handle, decode? stored = some (key, handle) ↔
      stored = encode key ++ Bytes.bigEndian 8 handle.val := by
    intro key handle
    constructor
    · exact eq_entry_of_decode?
    · rintro rfl
      exact decode?_entry key handle
  refine ⟨hread, ?_⟩
  rw [Option.eq_none_iff_forall_ne_some]
  constructor
  · intro hnone key handle heq
    exact hnone (key, handle) ((hread key handle).mpr heq)
  · rintro hother ⟨key, handle⟩ hsome
    exact hother key handle ((hread key handle).mp hsome)

/-- A lone zero byte in the body, a body that goes on after its terminator, and the handle zero. -/
example : decode? [7, 0, 1, 0, 0, 0, 0, 0, 0, 0, 0, 0, 1] = none ∧
    decode? [0, 0, 5, 0, 0, 0, 0, 0, 0, 0, 1] = none ∧
    decode? [0, 0, 0, 0, 0, 0, 0, 0, 0, 0] = none := by
  decide

/-! ## 4. Order -/

/-- Entries sort by key, byte by byte and a proper beginning first, and then by row. With an encoded key
begin the entries of that key alone, and with an escaped one the entries of all keys that it begins. -/
theorem entry_sorts (a b p : Bytes) (g h : RowHandle) :
    Bytes.order (entry a g) (entry b h) = (Bytes.order a b).then (compare g.val h.val) ∧
      (entry a g < entry b h ↔ a < b ∨ a = b ∧ g.val < h.val) ∧
      (encode a <+: entry b h ↔ a = b) ∧
      (escape p <+: entry a h ↔ p <+: a) := by
  refine ⟨order_entry a b g h, ?_, encode_isPrefix_entry, escape_isPrefix_entry⟩
  rw [← Bytes.order_eq_lt_iff, ← Bytes.order_eq_lt_iff, order_entry, Ordering.then_eq_lt,
    Bytes.order_eq_iff, Nat.compare_eq_lt]

end Key
end SnapshotStore
