/-!
# Byte strings

Row images and index keys are byte strings. Numbers are written into them at a fixed width:
big-endian where the order of the bytes has to be the order of the numbers, and read little-endian
where a row image counts the bytes of a field.
-/

namespace SnapshotStore

/-- A byte string. -/
abbrev Bytes := List UInt8

namespace Bytes

/-- The last `width` bytes of a number, the most significant first. -/
def bigEndian : (width : Nat) → Nat → Bytes
  | 0, _ => []
  | width + 1, n => UInt8.ofNat (n >>> (8 * width)) :: bigEndian width n

/-- The number whose bytes are given, the most significant first. -/
def ofBigEndian (bytes : Bytes) : Nat := bytes.foldl (fun n b => n * 256 + b.toNat) 0

/-- The number whose bytes are given, the least significant first. -/
def ofLittleEndian : Bytes → Nat
  | [] => 0
  | b :: rest => b.toNat + 256 * ofLittleEndian rest

/-- The last `n` bytes. -/
def takeLast (n : Nat) (bytes : Bytes) : Bytes := bytes.drop (bytes.length - n)

/-- All but the last `n` bytes. -/
def dropLast (n : Nat) (bytes : Bytes) : Bytes := bytes.take (bytes.length - n)

/-- Byte-wise order, a proper beginning first. -/
def order (a b : Bytes) : Ordering := List.compareLex (fun x y => compare x.toNat y.toNat) a b

/-! ## What is written is read back -/

@[simp] theorem length_bigEndian (width n : Nat) : (bigEndian width n).length = width := by
  induction width with
  | zero => rfl
  | succ width ih => simp [bigEndian, ih]

theorem ofBigEndian_concat (bytes : Bytes) (b : UInt8) :
    ofBigEndian (bytes ++ [b]) = ofBigEndian bytes * 256 + b.toNat := by
  simp [ofBigEndian]

theorem shiftRight_succ_byte (width n : Nat) :
    n >>> (8 * (width + 1)) = (n / 256) >>> (8 * width) := by
  have hbyte : n >>> 8 = n / 256 := Nat.shiftRight_eq_div_pow n 8
  rw [Nat.mul_succ, Nat.add_comm, Nat.shiftRight_add, hbyte]

theorem bigEndian_succ (width n : Nat) :
    bigEndian (width + 1) n = bigEndian width (n / 256) ++ [UInt8.ofNat n] := by
  induction width with
  | zero => simp [bigEndian]
  | succ width ih =>
    rw [bigEndian, ih, bigEndian, shiftRight_succ_byte]
    rfl

/-- A number of which nothing is left above the width is read back. -/
theorem ofBigEndian_bigEndian {width n : Nat} (fits : n >>> (8 * width) = 0) :
    ofBigEndian (bigEndian width n) = n := by
  induction width generalizing n with
  | zero => exact fits.symm
  | succ width ih =>
    rw [shiftRight_succ_byte] at fits
    rw [bigEndian_succ, ofBigEndian_concat, ih fits]
    simp only [UInt8.toNat_ofNat']
    omega

@[simp] theorem dropLast_append_of_length {n : Nat} (front back : Bytes) (h : back.length = n) :
    dropLast n (front ++ back) = front := by
  subst h; simp [dropLast]

@[simp] theorem takeLast_append_of_length {n : Nat} (front back : Bytes) (h : back.length = n) :
    takeLast n (front ++ back) = back := by
  subst h; simp [takeLast]

end Bytes

end SnapshotStore
