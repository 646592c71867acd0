import SnapshotStore.Bytes

/-!
# Row handles

A row of a table is known by its handle, a number that is never zero and fits eight bytes. The
big-endian bytes of a handle are its key in the table's primary structure and the ending of its
entries in the secondary indexes, so that rows sort by handle wherever nothing else tells them
apart.
-/

namespace SnapshotStore

/-- The identity of a row within its table. -/
structure RowHandle where
  val : Nat
  pos : 0 < val
  lt : val < 0x10000000000000000
deriving DecidableEq

namespace RowHandle

/-- The handle of a number, if the number can be one. -/
def ofNat? (n : Nat) : Option RowHandle :=
  if h : 0 < n ∧ n < 0x10000000000000000 then some ⟨n, h.1, h.2⟩ else none

/-- How many bytes a handle takes. -/
def width : Nat := 8

/-- The bytes of a handle, in the order of handles. -/
def toBytes (handle : RowHandle) : Bytes := Bytes.bigEndian width handle.val

/-- The handle in the last eight bytes of an index entry. -/
def ofSuffix? (entry : Bytes) : Option RowHandle :=
  if entry.length < width then none else ofNat? (Bytes.ofBigEndian (Bytes.takeLast width entry))

/-- Handles are ordered as their numbers. -/
instance : Ord RowHandle := ⟨fun a b => compare a.val b.val⟩

instance : Std.TransOrd RowHandle where
  eq_swap {a b} := Std.OrientedOrd.eq_swap (a := a.val) (b := b.val)
  isLE_trans {a b c} := Std.TransOrd.isLE_trans (a := a.val) (b := b.val) (c := c.val)

instance : Std.LawfulEqOrd RowHandle where
  eq_of_compare {a b} h := by
    have hval : a.val = b.val := Std.LawfulEqOrd.eq_of_compare h
    cases a; cases b; cases hval; rfl

/-- The short form that messages use. -/
def display (handle : RowHandle) : String := s!"#{handle.val}"

/-- The description that logs use. -/
def describe (handle : RowHandle) : String := s!"RowHandle({handle.val})"

/-! ## What is written is read back -/

@[simp] theorem length_toBytes (handle : RowHandle) : handle.toBytes.length = width :=
  Bytes.length_bigEndian ..

theorem ofNat?_val (handle : RowHandle) : ofNat? handle.val = some handle :=
  dif_pos ⟨handle.pos, handle.lt⟩

/-- A handle is read back from behind whatever stands before it. -/
theorem ofSuffix?_append_toBytes (front : Bytes) (handle : RowHandle) :
    ofSuffix? (front ++ handle.toBytes) = some handle := by
  have hlen : ¬ (front ++ handle.toBytes).length < width := by simp
  have hfits : handle.val >>> (8 * width) = 0 :=
    (Nat.shiftRight_eq_div_pow ..).trans (Nat.div_eq_of_lt handle.lt)
  rw [ofSuffix?, if_neg hlen, Bytes.takeLast_append_of_length _ _ (length_toBytes handle), toBytes,
    Bytes.ofBigEndian_bigEndian hfits, ofNat?_val]

end RowHandle

end SnapshotStore
