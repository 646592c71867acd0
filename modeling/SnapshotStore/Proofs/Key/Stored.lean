import Mathlib
import SnapshotStore.Key.Stored
import SnapshotStore.Proofs.Bytes

/-!
# Entries sort by key and then by row

What the layout of an entry is for. The terminator cannot occur inside an escaped key, so two
entries differ within their encoded keys unless the keys are the same, and only then do the handles
speak. From this follow the order of entries, which entries begin with an encoded key, and which
begin with an escaped one.

The order is stated for an escaped key, the terminator and *anything* behind it
(`order_encode_append`), because a scan also starts from ends that are no entries.
-/

namespace SnapshotStore
namespace Key

/-! ## 1. One byte at a time -/

@[simp] theorem escape_zero_cons (key : Bytes) : escape (0 :: key) = 0 :: 255 :: escape key := rfl

theorem escape_cons_of_ne {b : UInt8} (h : b ≠ 0) (key : Bytes) :
    escape (b :: key) = b :: escape key := by
  rw [escape_cons, escapeByte, if_neg h]
  rfl

theorem zero_lt_toNat {b : UInt8} (h : b ≠ 0) : (0 : UInt8).toNat < b.toNat := by
  rcases Nat.eq_zero_or_pos b.toNat with h0 | hpos
  · exact absurd (UInt8.toNat_inj.mp h0) h
  · exact hpos

theorem order_zero_cons {b : UInt8} (h : b ≠ 0) (x y : Bytes) :
    Bytes.order (0 :: x) (b :: y) = .lt := by
  rw [Bytes.order_cons_cons, Nat.compare_eq_lt.mpr (zero_lt_toNat h)]
  rfl

theorem order_cons_zero {b : UInt8} (h : b ≠ 0) (x y : Bytes) :
    Bytes.order (b :: x) (0 :: y) = .gt := by
  rw [← Bytes.order_swap, order_zero_cons h]
  rfl

/-! ## 2. Order -/

/-- Encoded keys decide first, and what stands behind them decides between entries of one key. -/
theorem order_encode_append (a b x y : Bytes) :
    Bytes.order (encode a ++ x) (encode b ++ y) = (Bytes.order a b).then (Bytes.order x y) := by
  simp only [encode, terminator, List.append_assoc, List.cons_append, List.nil_append]
  -- Where one of them ends, its terminator meets a byte above zero, or a zero that is escaped.
  induction a generalizing b with
  | nil =>
    cases b with
    | nil => simp [escape_nil]
    | cons c b =>
      by_cases hc : c = 0
      · subst hc
        rw [escape_nil, escape_zero_cons, List.nil_append, List.cons_append, List.cons_append,
          Bytes.order_cons_self, order_zero_cons (by decide)]
        rfl
      · rw [escape_nil, escape_cons_of_ne hc, List.nil_append, List.cons_append, order_zero_cons hc]
        rfl
  | cons c a ih =>
    cases b with
    | nil =>
      by_cases hc : c = 0
      · subst hc
        rw [escape_nil, escape_zero_cons, List.nil_append, List.cons_append, List.cons_append,
          Bytes.order_cons_self, order_cons_zero (by decide)]
        rfl
      · rw [escape_nil, escape_cons_of_ne hc, List.nil_append, List.cons_append, order_cons_zero hc]
        rfl
    | cons d b =>
      by_cases hc : c = 0
      · by_cases hd : d = 0
        · subst hc hd
          simp only [escape_zero_cons, List.cons_append, Bytes.order_cons_self, ih]
        · subst hc
          simp only [escape_zero_cons, escape_cons_of_ne hd, List.cons_append, order_zero_cons hd]
          rfl
      · by_cases hd : d = 0
        · subst hd
          simp only [escape_zero_cons, escape_cons_of_ne hc, List.cons_append, order_cons_zero hc]
          rfl
        · rw [escape_cons_of_ne hc, escape_cons_of_ne hd, List.cons_append, List.cons_append,
            Bytes.order_cons_cons, Bytes.order_cons_cons c d a b, ih, Ordering.then_assoc]

/-- Entries are ordered by key, and by handle among rows that share a key. -/
theorem order_entry (a b : Bytes) (g h : RowHandle) :
    Bytes.order (entry a g) (entry b h) = (Bytes.order a b).then (compare g.val h.val) := by
  rw [entry, entry, order_encode_append, RowHandle.order_toBytes]

theorem entry_injective {a b : Bytes} {g h : RowHandle} (heq : entry a g = entry b h) :
    a = b ∧ g = h := by
  have hcmp := order_entry a b g h
  rw [heq, Bytes.order_self] at hcmp
  obtain ⟨hkey, hrow⟩ := Ordering.then_eq_eq.mp hcmp.symm
  exact ⟨Bytes.order_eq_iff.mp hkey, RowHandle.ext (Nat.compare_eq_eq.mp hrow)⟩

theorem encode_injective {a b : Bytes} (heq : encode a = encode b) : a = b := by
  have hcmp := order_encode_append a b [] []
  rw [heq, Bytes.order_self] at hcmp
  exact Bytes.order_eq_iff.mp (Ordering.then_eq_eq.mp hcmp.symm).1

/-! ## 3. Beginnings -/

/-- Only the entries of a key begin with its encoded form. -/
theorem encode_isPrefix_entry {a b : Bytes} {h : RowHandle} :
    encode a <+: entry b h ↔ a = b := by
  constructor
  · rintro ⟨rest, hrest⟩
    have hcmp := order_encode_append a b rest h.toBytes
    rw [hrest, entry, Bytes.order_self] at hcmp
    exact Bytes.order_eq_iff.mp (Ordering.then_eq_eq.mp hcmp.symm).1
  · rintro rfl
    exact List.prefix_append _ _

/-- The entries that begin with an escaped key are those of the keys that begin with it. -/
theorem escape_isPrefix_entry {p key : Bytes} {h : RowHandle} :
    escape p <+: entry key h ↔ p <+: key := by
  simp only [entry, encode, terminator, List.append_assoc, List.cons_append, List.nil_append]
  induction p generalizing key with
  | nil => simp [escape_nil]
  | cons c p ih =>
    cases key with
    | nil =>
      -- An escaped key never has two zero bytes in a row, so it cannot run into the terminator.
      by_cases hc : c = 0
      · subst hc
        simp [-escape_cons, List.cons_prefix_cons]
      · simp [-escape_cons, escape_cons_of_ne hc, List.cons_prefix_cons, hc]
    | cons d key =>
      by_cases hc : c = 0
      · by_cases hd : d = 0
        · subst hc hd
          simp [-escape_cons, List.cons_prefix_cons, ih]
        · subst hc
          simp [-escape_cons, escape_cons_of_ne hd, List.cons_prefix_cons, Ne.symm hd]
      · by_cases hd : d = 0
        · subst hd
          simp [-escape_cons, escape_cons_of_ne hc, List.cons_prefix_cons, hc]
        · simp [-escape_cons, escape_cons_of_ne hc, escape_cons_of_ne hd, List.cons_prefix_cons, ih]

/-! ## 4. Reading entries back -/

theorem unescape_cons_of_ne {b : UInt8} (h : b ≠ 0) (rest : Bytes) :
    unescape (b :: rest) = (unescape rest).map (b :: ·) := by
  cases rest with
  | nil => simp only [unescape, if_neg h]
  | cons c rest => simp only [unescape, if_neg h]

theorem unescape_encode (key : Bytes) : unescape (encode key) = some key := by
  induction key with
  | nil => simp [encode, terminator, unescape]
  | cons c key ih =>
    rw [encode] at ih ⊢
    by_cases hc : c = 0
    · subst hc
      rw [escape_zero_cons, List.cons_append, List.cons_append]
      simp only [unescape, if_pos, ih, Option.map_some]
    · rw [escape_cons_of_ne hc, List.cons_append, unescape_cons_of_ne hc, ih]
      rfl

/-- An entry is read back. -/
theorem decode?_entry (key : Bytes) (h : RowHandle) : decode? (entry key h) = some (key, h) := by
  simp [decode?, unescape_encode]

/-- Taking an escaped key off the front succeeds exactly where it is a beginning. -/
theorem stripEscaped?_eq_some_iff {data stored rest : Bytes} :
    stripEscaped? data stored = some rest ↔ stored = escape data ++ rest := by
  induction data generalizing stored with
  | nil => simp [stripEscaped?, eq_comm]
  | cons b data ih =>
    rw [stripEscaped?, Option.bind_eq_some_iff, escape_cons, List.append_assoc]
    constructor
    · rintro ⟨middle, hmiddle, hrest⟩
      rw [List.isPrefixOf?_eq_some_iff_append_eq] at hmiddle
      rw [← hmiddle, ih.mp hrest]
    · intro h
      exact ⟨escape data ++ rest, List.isPrefixOf?_eq_some_iff_append_eq.mpr h.symm, ih.mpr rfl⟩

end Key
end SnapshotStore
