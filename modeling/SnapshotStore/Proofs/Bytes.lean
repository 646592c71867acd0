import Mathlib
import SnapshotStore.RowHandle

/-!
# The order of byte strings

`Bytes.order` compares byte by byte and puts a proper beginning first. It is what a trie sorts its
keys by, so everything that is said about the order of a scan comes down to it. Two facts carry the
rest: a common beginning decides nothing, and beginnings of equal length decide before what follows
them. Big-endian numbers of one width are ordered as the numbers are, which is why handles are
written that way.
-/

namespace SnapshotStore
namespace Bytes

/-! ## The order is total and strict -/

@[simp] theorem order_nil_nil : order [] [] = .eq := rfl

@[simp] theorem order_nil_cons (b : UInt8) (rest : Bytes) : order [] (b :: rest) = .lt := rfl

@[simp] theorem order_cons_nil (b : UInt8) (rest : Bytes) : order (b :: rest) [] = .gt := rfl

theorem order_cons_cons (x y : UInt8) (a b : Bytes) :
    order (x :: a) (y :: b) = (compare x.toNat y.toNat).then (order a b) := by
  unfold order
  exact List.compareLex_cons_cons

@[simp] theorem order_cons_self (x : UInt8) (a b : Bytes) : order (x :: a) (x :: b) = order a b := by
  rw [order_cons_cons, Nat.compare_eq_eq.mpr rfl]
  rfl

@[simp] theorem order_self (a : Bytes) : order a a = .eq := by
  induction a with
  | nil => rfl
  | cons x a ih => rw [order_cons_self, ih]

theorem order_swap (a b : Bytes) : (order a b).swap = order b a := by
  induction a generalizing b with
  | nil => cases b <;> rfl
  | cons x a ih =>
    cases b with
    | nil => rfl
    | cons y b => rw [order_cons_cons, order_cons_cons, Ordering.swap_then, ih, Nat.compare_swap]

theorem order_eq_iff {a b : Bytes} : order a b = .eq ↔ a = b := by
  constructor
  · intro h
    induction a generalizing b with
    | nil => cases b with
      | nil => rfl
      | cons y b => simp at h
    | cons x a ih =>
      cases b with
      | nil => simp at h
      | cons y b =>
        rw [order_cons_cons, Ordering.then_eq_eq, Nat.compare_eq_eq] at h
        rw [UInt8.toNat_inj.mp h.1, ih h.2]
  · rintro rfl
    exact order_self a

theorem order_cons_lt {x y : UInt8} {a b : Bytes} :
    order (x :: a) (y :: b) = .lt ↔ x.toNat < y.toNat ∨ x.toNat = y.toNat ∧ order a b = .lt := by
  rw [order_cons_cons, Ordering.then_eq_lt, Nat.compare_eq_lt, Nat.compare_eq_eq]

theorem order_trans {a b c : Bytes} (hab : order a b = .lt) (hbc : order b c = .lt) :
    order a c = .lt := by
  induction a generalizing b c with
  | nil =>
    cases c with
    | nil => cases b <;> cases hbc
    | cons z c => rfl
  | cons x a ih =>
    cases b with
    | nil => cases hab
    | cons y b =>
      cases c with
      | nil => cases hbc
      | cons z c =>
        rw [order_cons_lt] at hab hbc ⊢
        rcases hab with hab | ⟨hxy, hab⟩
        · exact Or.inl (by omega)
        · rcases hbc with hbc | ⟨hyz, hbc⟩
          · exact Or.inl (by omega)
          · exact Or.inr ⟨hxy.trans hyz, ih hab hbc⟩

/-- The order of byte strings is the lexicographic order of lists. -/
theorem order_eq_lt_iff {a b : Bytes} : order a b = .lt ↔ a < b := by
  induction a generalizing b with
  | nil =>
    cases b with
    | nil => simp
    | cons y b => simp
  | cons x a ih =>
    cases b with
    | nil => simp
    | cons y b =>
      rw [order_cons_lt, ih, List.cons_lt_cons_iff, UInt8.lt_iff_toNat_lt, UInt8.toNat_inj]

/-! ## Beginnings -/

@[simp] theorem order_append_left (front a b : Bytes) :
    order (front ++ a) (front ++ b) = order a b := by
  induction front with
  | nil => rfl
  | cons x front ih => rw [List.cons_append, List.cons_append, order_cons_self, ih]

/-- Beginnings of equal length decide first, and what follows them decides after. -/
theorem order_append_of_length {a b : Bytes} (h : a.length = b.length) (x y : Bytes) :
    order (a ++ x) (b ++ y) = (order a b).then (order x y) := by
  induction a generalizing b with
  | nil =>
    cases b with
    | nil => rfl
    | cons c b => simp at h
  | cons c a ih =>
    cases b with
    | nil => simp at h
    | cons d b =>
      rw [List.cons_append, List.cons_append, order_cons_cons, order_cons_cons,
        ih (by simpa using h), Ordering.then_assoc]

/-- No byte string of a length comes after the one whose bytes are all the greatest. -/
theorem order_replicate_ne_lt {n : Nat} {a : Bytes} (h : a.length = n) :
    order (List.replicate n 255) a ≠ .lt := by
  induction n generalizing a with
  | zero =>
    rw [List.length_eq_zero_iff.mp h]
    simp
  | succ n ih =>
    cases a with
    | nil => simp at h
    | cons x a =>
      rw [List.replicate_succ, order_cons_cons]
      have hx : x.toNat ≤ (255 : UInt8).toNat := Nat.le_of_lt_succ x.toNat_lt
      rcases Nat.lt_or_eq_of_le hx with hlt | heq
      · rw [Nat.compare_eq_gt.mpr hlt]
        simp
      · rw [heq, Nat.compare_eq_eq.mpr rfl]
        exact ih (by simpa using h)

/-- What lies between two byte strings begins as both of them do. -/
theorem prefix_of_between {front a b c : Bytes} (ha : front <+: a) (hc : front <+: c)
    (hab : order a b = .lt) (hbc : order b c = .lt) : front <+: b := by
  induction front generalizing a b c with
  | nil => exact List.nil_prefix
  | cons x front ih =>
    obtain ⟨a, rfl⟩ := ha
    obtain ⟨c, rfl⟩ := hc
    cases b with
    | nil => cases hab
    | cons y b =>
      rw [List.cons_append, order_cons_lt] at hab hbc
      have hxy : y = x := UInt8.toNat_inj.mp (by omega)
      subst hxy
      have hab' := hab.resolve_left (Nat.lt_irrefl _)
      have hbc' := hbc.resolve_left (Nat.lt_irrefl _)
      rw [List.cons_prefix_cons]
      exact ⟨rfl, ih (List.prefix_append _ _) (List.prefix_append _ _) hab'.2 hbc'.2⟩

/-! ## Numbers -/

/-- A byte string is the number that it spells, written at its own width. -/
theorem bigEndian_ofBigEndian (bytes : Bytes) :
    bigEndian bytes.length (ofBigEndian bytes) = bytes := by
  induction bytes using List.reverseRecOn with
  | nil => rfl
  | append_singleton bytes b ih =>
    have hlow : UInt8.ofNat (ofBigEndian bytes * 256 + b.toNat) = b := by
      apply UInt8.toNat_inj.mp
      rw [UInt8.toNat_ofNat', Nat.mul_add_mod_of_lt b.toNat_lt]
    have hhigh : (ofBigEndian bytes * 256 + b.toNat) / 256 = ofBigEndian bytes := by
      have hbyte := b.toNat_lt
      omega
    rw [List.length_append, List.length_singleton, ofBigEndian_concat, bigEndian_succ, hhigh, ih,
      hlow]

/-- Big-endian numbers that fit their width are ordered as the numbers are. -/
theorem order_bigEndian {width m n : Nat} (hm : m < 256 ^ width) (hn : n < 256 ^ width) :
    order (bigEndian width m) (bigEndian width n) = compare m n := by
  induction width generalizing m n with
  | zero =>
    rw [Nat.pow_zero, Nat.lt_one_iff] at hm hn
    subst hm hn
    rfl
  | succ width ih =>
    have hdiv : ∀ {k : Nat}, k < 256 ^ (width + 1) → k / 256 < 256 ^ width := by
      intro k hk
      rw [Nat.div_lt_iff_lt_mul (by decide), ← Nat.pow_succ]
      exact hk
    rw [bigEndian_succ, bigEndian_succ, order_append_of_length (by simp), ih (hdiv hm) (hdiv hn),
      order_cons_cons, order_nil_nil, Ordering.then_eq, UInt8.toNat_ofNat', UInt8.toNat_ofNat']
    -- The quotients decide unless they agree, and then the remainders do.
    rcases Nat.lt_trichotomy (m / 256) (n / 256) with hlt | heq | hgt
    · rw [Nat.compare_eq_lt.mpr hlt, Nat.compare_eq_lt.mpr (show m < n by omega)]
      rfl
    · rw [Nat.compare_eq_eq.mpr heq, Ordering.eq_then]
      rcases Nat.lt_trichotomy m n with hlt | heq' | hgt
      · rw [Nat.compare_eq_lt.mpr hlt, Nat.compare_eq_lt.mpr (by omega)]
      · rw [heq', Nat.compare_eq_eq.mpr rfl, Nat.compare_eq_eq.mpr rfl]
      · rw [Nat.compare_eq_gt.mpr hgt, Nat.compare_eq_gt.mpr (by omega)]
    · rw [Nat.compare_eq_gt.mpr hgt, Nat.compare_eq_gt.mpr (show n < m by omega)]
      rfl

end Bytes

namespace RowHandle

@[ext] theorem ext {a b : RowHandle} (h : a.val = b.val) : a = b := by
  cases a
  cases b
  cases h
  rfl

/-- The bytes of handles are ordered as the handles are. -/
theorem order_toBytes (a b : RowHandle) :
    Bytes.order a.toBytes b.toBytes = compare a.val b.val := by
  have hlimit : 0x10000000000000000 = 256 ^ width := by rfl
  exact Bytes.order_bigEndian (hlimit ▸ a.lt) (hlimit ▸ b.lt)

theorem toBytes_injective {a b : RowHandle} (h : a.toBytes = b.toBytes) : a = b := by
  have hcmp := order_toBytes a b
  rw [h, Bytes.order_self] at hcmp
  exact ext (Nat.compare_eq_eq.mp hcmp.symm)

end RowHandle

end SnapshotStore
