import Mathlib
import SnapshotStore.Version.Chain
import SnapshotStore.Table.Reclaim
import SnapshotStore.Proofs.Ledger

/-!
# Which versions somebody may see

A snapshot that is held now or will be taken lies at or above the horizon, so no reader goes past the
first version of a chain that was committed at or below it. The versions from the newest down to that
one are the *reach* of the chain. Everything the store keeps entries for, and everything that
reclamation has to leave alone, is in reach; and what is out of reach never comes back, because a
version that everybody sees is never undone (`mem_reach_of_grows`).
-/

namespace SnapshotStore

/-! ## 1. Marks -/

namespace Stamp

/-- The word keeps 40 bits of the transaction above 24 bits of the statement. -/
theorem toNat_pack (stamp : Stamp) : stamp.pack.toNat =
    (stamp.transaction % 2 ^ 40).toNat * 2 ^ 24 + stamp.statement % 2 ^ 24 := by
  simp only [pack, statementBits, Nat.shiftLeft_eq, UInt64.toNat_ofNat']
  omega

/-- What a word is read as. -/
theorem unpack?_pack_eq (stamp : Stamp) : unpack? stamp.pack =
    if stamp.transaction % 2 ^ 40 = 0 ∧ stamp.statement % 2 ^ 24 = 0 then none
    else some ⟨stamp.transaction % 2 ^ 40, stamp.statement % 2 ^ 24⟩ := by
  have hword := toNat_pack stamp
  have hzero : stamp.pack = 0 ↔ stamp.transaction % 2 ^ 40 = 0 ∧ stamp.statement % 2 ^ 24 = 0 := by
    rw [← UInt64.toNat_inj, hword, UInt64.toNat_zero]
    omega
  have hhigh : (((stamp.transaction % 2 ^ 40).toNat * 2 ^ 24 + stamp.statement % 2 ^ 24) / 2 ^ 24 :
      Nat) = (stamp.transaction % 2 ^ 40).toNat := by
    omega
  have hlow : ((stamp.transaction % 2 ^ 40).toNat * 2 ^ 24 + stamp.statement % 2 ^ 24) % 2 ^ 24 =
      stamp.statement % 2 ^ 24 := by
    omega
  have hcast : ((stamp.transaction % 2 ^ 40).toNat : Int) = stamp.transaction % 2 ^ 40 :=
    Int.toNat_of_nonneg (Int.emod_nonneg _ (by decide))
  rw [unpack?, hword, statementBits, Nat.shiftLeft_eq, Nat.one_mul, Nat.shiftRight_eq_div_pow, hhigh,
    hlow, hcast]
  simp only [hzero]

theorem statement_of_mod (transaction : Int) (statement : Nat) :
    (Stamp.of transaction statement).statement % 2 ^ 24 = min statement maxStatement := by
  simp only [Stamp.of, maxStatement, statementBits, Nat.shiftLeft_eq]
  omega

/-- A stamp whose transaction is below 2^40 is read back from its word. -/
theorem unpack?_pack_of {id : Int} (pos : 0 < id) (fits : id < 2 ^ 40) (statement : Nat) :
    unpack? (Stamp.of id statement).pack = some (.of id statement) := by
  have hid : id % 2 ^ 40 = id := Int.emod_eq_of_lt (Int.le_of_lt pos) fits
  rw [unpack?_pack_eq, statement_of_mod]
  simp only [Stamp.of, hid]
  rw [if_neg fun h => Int.ne_of_gt pos h.1]

theorem pack_of_ne_zero {transaction : Int} {statement : Nat} (h : 0 < statement) :
    (Stamp.of transaction statement).pack ≠ 0 := by
  intro hzero
  have hword := toNat_pack (.of transaction statement)
  rw [hzero, UInt64.toNat_zero, statement_of_mod, maxStatement, statementBits] at hword
  omega

end Stamp

namespace Version

@[simp] theorem deleted_eq_none {v : Version} : v.deleted = none ↔ v.deletion = 0 := by
  rw [deleted, Stamp.unpack?]
  split <;> simp [*]

theorem isMarked_eq_false {v : Version} : v.isMarked = false ↔ v.deletion = 0 := by
  rw [isMarked, Option.isSome_eq_false_iff, Option.isNone_iff_eq_none, deleted_eq_none]

/-! A version and its marked form agree in everything but the mark. Comparing the two as wholes would
compare their words, so the fields are first read off a version with any word. -/

theorem id_setDeletion (v : Version) (word : UInt64) : { v with deletion := word }.id = v.id := rfl

theorem record_setDeletion (v : Version) (word : UInt64) :
    { v with deletion := word }.record = v.record := rfl

theorem created_setDeletion (v : Version) (word : UInt64) :
    { v with deletion := word }.created = v.created := rfl

@[simp] theorem id_mark (v : Version) (stamp : Stamp) : (v.mark stamp).id = v.id :=
  id_setDeletion v stamp.pack

@[simp] theorem record_mark (v : Version) (stamp : Stamp) : (v.mark stamp).record = v.record :=
  record_setDeletion v stamp.pack

@[simp] theorem created_mark (v : Version) (stamp : Stamp) : (v.mark stamp).created = v.created :=
  created_setDeletion v stamp.pack

theorem isMarked_mark {v : Version} {transaction : Int} {statement : Nat} (h : 0 < statement) :
    (v.mark (.of transaction statement)).isMarked = true := by
  rw [← Bool.not_eq_false, isMarked_eq_false]
  exact Stamp.pack_of_ne_zero h

/-- A mark is read back, as long as the transactions are few enough. -/
theorem deleted_mark {v : Version} {id : Int} {statement : Nat} (hpos : 0 < id)
    (hfits : id < 2 ^ 40) : (v.mark (.of id statement)).deleted = some (.of id statement) :=
  Stamp.unpack?_pack_of hpos hfits statement

theorem clear_mark {v : Version} (h : v.isMarked = false) (stamp : Stamp) :
    { v.mark stamp with deletion := 0 } = v := by
  rw [isMarked_eq_false] at h
  cases v
  simp_all [mark]

/-- Clearing a mark leaves an unmarked version or, if another transaction's number is in the mark,
the version as it was. -/
theorem unmark_mark {v : Version} (h : v.isMarked = false) (stamp : Stamp) (transaction : Int) :
    (v.mark stamp).unmark transaction = v ∨ (v.mark stamp).unmark transaction = v.mark stamp := by
  rw [unmark, clear_mark h]
  split
  · exact Or.inl rfl
  · exact Or.inr rfl

theorem unmark_mark_of_lt {v : Version} (h : v.isMarked = false) {id : Int} {statement : Nat}
    (hpos : 0 < id) (hfits : id < 2 ^ 40) : (v.mark (.of id statement)).unmark id = v := by
  rw [unmark, clear_mark h, deleted_mark hpos hfits, Option.any_some, if_pos (by simp [Stamp.of])]

@[simp] theorem id_unmark (v : Version) (transaction : Int) : (v.unmark transaction).id = v.id := by
  rw [unmark]
  split <;> rfl

@[simp] theorem record_unmark (v : Version) (transaction : Int) :
    (v.unmark transaction).record = v.record := by
  rw [unmark]
  split <;> rfl

@[simp] theorem created_unmark (v : Version) (transaction : Int) :
    (v.unmark transaction).created = v.created := by
  rw [unmark]
  split <;> rfl

end Version

namespace Chain

/-! ## 2. Reach -/

/-- The versions from the newest down to the first that was committed at or below the horizon. -/
def reach (l : Ledger) (horizon : Int) : Chain → Chain
  | [] => []
  | v :: older =>
    v :: if l.committedBy v.created.transaction horizon then [] else reach l horizon older

variable {l l' : Ledger} {horizon horizon' : Int} {v : Version} {chain older : Chain}

theorem reach_cons_of_settled (h : l.committedBy v.created.transaction horizon = true) :
    reach l horizon (v :: older) = [v] := by
  rw [reach, if_pos h]

theorem reach_cons_of_not_settled (h : l.committedBy v.created.transaction horizon = false) :
    reach l horizon (v :: older) = v :: reach l horizon older := by
  rw [reach, if_neg (by rw [h]; exact Bool.false_ne_true)]

theorem reach_isPrefix (l : Ledger) (horizon : Int) (chain : Chain) :
    reach l horizon chain <+: chain := by
  induction chain with
  | nil => exact List.prefix_rfl
  | cons v older ih =>
    cases h : l.committedBy v.created.transaction horizon with
    | true =>
      rw [reach_cons_of_settled h]
      exact ⟨older, rfl⟩
    | false =>
      rw [reach_cons_of_not_settled h]
      exact List.cons_prefix_cons.mpr ⟨rfl, ih⟩

theorem mem_of_mem_reach (h : v ∈ reach l horizon chain) : v ∈ chain :=
  (reach_isPrefix l horizon chain).subset h

theorem newest_mem_reach (l : Ledger) (horizon : Int) (v : Version) (older : Chain) :
    v ∈ reach l horizon (v :: older) := by
  rw [reach]
  exact List.mem_cons_self

/-- Whatever is in reach of the older versions, and of the newest unless everybody sees it. -/
theorem mem_reach_cons {w : Version} : w ∈ reach l horizon (v :: older) ↔
    w = v ∨ l.committedBy v.created.transaction horizon = false ∧ w ∈ reach l horizon older := by
  cases h : l.committedBy v.created.transaction horizon with
  | true => rw [reach_cons_of_settled h]; simp
  | false => rw [reach_cons_of_not_settled h]; simp

/-- What is out of reach stays out of reach: who was seen by everybody still is. -/
theorem mem_reach_of_settled_mono {w : Version}
    (mono : ∀ u ∈ chain, l.committedBy u.created.transaction horizon = true →
      l'.committedBy u.created.transaction horizon' = true)
    (h : w ∈ reach l' horizon' chain) : w ∈ reach l horizon chain := by
  induction chain with
  | nil => exact h
  | cons v older ih =>
    rw [mem_reach_cons] at h ⊢
    rcases h with heq | ⟨hopen, hmem⟩
    · exact Or.inl heq
    refine Or.inr ⟨?_, ?_⟩
    · by_contra hne
      rw [mono v List.mem_cons_self (Bool.not_eq_false _ ▸ hne)] at hopen
      cases hopen
    · exact ih (fun u hu => mono u (List.mem_cons_of_mem _ hu)) hmem

theorem mem_reach_of_grows (grows : Ledger.Grows l l') (ok : l.Ok) {w : Version}
    (h : w ∈ reach l' l'.horizon chain) : w ∈ reach l l.horizon chain :=
  mem_reach_of_settled_mono (fun _ _ hu => grows.settled ok hu) h

/-- A version must be kept for an entry if one in reach carries it. -/
theorem mayCarry_iff {spec : KeySpec} {entry : Bytes} :
    chain.mayCarry l horizon spec entry = true ↔
      ∃ w ∈ reach l horizon chain, spec.carries w.record entry = .ok true := by
  induction chain with
  | nil => simp [mayCarry, reach]
  | cons v older ih =>
    rw [mayCarry]
    have hrest : (!l.committedBy v.created.transaction horizon &&
        mayCarry l horizon spec entry older) = true ↔
          l.committedBy v.created.transaction horizon = false ∧
            ∃ w ∈ reach l horizon older, spec.carries w.record entry = .ok true := by
      rw [Bool.and_eq_true, Bool.not_eq_true', ih]
    split
    · rename_i hcarries
      simp only [true_iff]
      exact ⟨v, newest_mem_reach _ _ _ _, hcarries⟩
    · rename_i hnot
      rw [hrest]
      constructor
      · rintro ⟨hopen, w, hw, hcarries⟩
        exact ⟨w, mem_reach_cons.mpr (Or.inr ⟨hopen, hw⟩), hcarries⟩
      · rintro ⟨w, hw, hcarries⟩
        rcases mem_reach_cons.mp hw with rfl | ⟨hopen, hw⟩
        · exact absurd hcarries hnot
        · exact ⟨hopen, w, hw, hcarries⟩

/-! ## 3. Reading -/

/-- The view belongs to a transaction that runs under a snapshot no older than the horizon. -/
structure Viewing (l : Ledger) (view : View) : Prop where
  running : l.isCommitted view.transaction = false
  recent : l.horizon ≤ view.snapshot

/-- Every view sees what everybody sees. -/
theorem Viewing.sees {view : View} (viewing : Viewing l view) {stamp : Stamp}
    (h : l.committedBy stamp.transaction l.horizon = true) : view.sees l stamp = true := by
  have hne : stamp.transaction ≠ view.transaction := by
    intro heq
    have hcommitted := Ledger.isCommitted_of_committedBy h
    rw [heq, viewing.running] at hcommitted
    cases hcommitted
  rw [View.sees, if_neg hne, Ledger.isVisible, Ledger.committedBy_mono h viewing.recent, Bool.or_true]

/-- What a view reads is a version of the chain and those it lies on. -/
theorem suffix_of_read {view : View} {below : Chain}
    (h : Chain.read l view chain = .visible v below) : v :: below <:+ chain := by
  induction chain with
  | nil => cases h
  | cons w older ih =>
    rw [read] at h
    split at h
    · split at h
      · cases h
      · cases h
        exact List.suffix_rfl
    · exact (ih h).trans (List.suffix_cons w older)

/-- The version that a view sees is in reach. -/
theorem mem_reach_of_read {view : View} (viewing : Viewing l view) {below : Chain}
    (h : Chain.read l view chain = .visible v below) : v ∈ reach l l.horizon chain := by
  induction chain with
  | nil => cases h
  | cons w older ih =>
    rw [read] at h
    split at h
    · split at h
      · cases h
      · cases h
        exact newest_mem_reach _ _ _ _
    · rename_i hsees
      refine mem_reach_cons.mpr (Or.inr ⟨?_, ih h⟩)
      by_contra hne
      exact hsees (viewing.sees (Bool.not_eq_false _ ▸ hne))

end Chain
end SnapshotStore
