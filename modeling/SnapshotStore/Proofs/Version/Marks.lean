import Mathlib
import SnapshotStore.Proofs.Ledger.Forgetting
import SnapshotStore.Proofs.Version.Chain

/-!
# How long marks are exact

A mark says who deleted the row. While the deletion is open everything depends on that: its writer, and
nobody else, sees the row as deleted, and takes the mark off again if the deletion is undone. The stamp
of a mark lies in one word with the statement, and that leaves 40 bits to the transaction.

The ledger knows no such bound. It hands out every id from 1 on (`Ledger.exists_began`), and marks are
exact for the ids below 2^40 and for no others (`Version.mark_exact_iff`). The first id beyond them is
kept as 0, which is no transaction: the mark is there, but is nobody's, and stays when its writer is
undone (`Version.mark_outgrown`). With the statement 0, which no transaction writes in, the word would
even be that of an unmarked version.
-/

namespace SnapshotStore

/-! ## 1. Ids -/

namespace Ledger

/-- As many ids are handed out as transactions begin. -/
theorem run_begin {l : Ledger} (accepting : l.accepting = true) (n : Nat) :
    (l.run (List.replicate n .begin)).accepting = true ∧
      (l.run (List.replicate n .begin)).lastId = l.lastId + n := by
  induction n generalizing l with
  | zero => exact ⟨accepting, (Int.add_zero _).symm⟩
  | succ n ih =>
    obtain ⟨l', id, snapshot, hbegin⟩ : ∃ l' id snapshot, l.begin? = some (l', id, snapshot) :=
      ⟨_, _, _, begin?_eq_some.mpr ⟨accepting, rfl, rfl, rfl⟩⟩
    have hask : l.ask .begin = l' := by rw [ask, hbegin]
    obtain ⟨_, _, _, rfl⟩ := begin?_eq_some.mp hbegin
    obtain ⟨haccepting, hlast⟩ := ih (l := l.ask .begin) (by rw [hask]; exact accepting)
    rw [hask] at haccepting hlast
    rw [List.replicate_succ, run, List.foldl_cons, hask]
    refine ⟨haccepting, hlast.trans ?_⟩
    push_cast
    omega

theorem orderly_begin (l : Ledger) (n : Nat) : l.Orderly (List.replicate n .begin) := by
  induction n generalizing l with
  | zero => trivial
  | succ n ih => exact ⟨trivial, ih _⟩

/-- Every id from 1 on is that of some transaction. -/
theorem exists_began {id : Int} (pos : 1 ≤ id) : ∃ calls, Orderly {} calls ∧ Began calls id := by
  obtain ⟨n, hn⟩ := Int.eq_ofNat_of_zero_le (Int.sub_nonneg_of_le pos)
  obtain ⟨haccepting, hlast⟩ := run_begin (l := {}) rfl n
  refine ⟨List.replicate (n + 1) .begin, orderly_begin _ _, List.replicate n .begin, .begin, [],
    List.replicate_succ', rfl, _, _, begin?_eq_some.mpr ⟨haccepting, ?_, rfl, rfl⟩⟩
  rw [hlast]
  show id = 0 + (n : Int) + 1
  omega

end Ledger

/-! ## 2. Marks -/

namespace Version

variable {v : Version} {id : Int}

/-- What a mark is read as. -/
theorem deleted_mark_eq (v : Version) (id : Int) (statement : Nat) :
    (v.mark (.of id statement)).deleted =
      if id % 2 ^ 40 = 0 ∧ min statement Stamp.maxStatement = 0 then none
      else some ⟨id % 2 ^ 40, min statement Stamp.maxStatement⟩ := by
  have hread := Stamp.unpack?_pack_eq (.of id statement)
  rw [Stamp.statement_of_mod] at hread
  exact hread

/-- A mark is taken off for the transaction that it is read as, and for no other. -/
theorem unmark_mark_eq (unmarked : v.isMarked = false) (stamp : Stamp) (transaction : Int) :
    (v.mark stamp).unmark transaction = v ↔
      v.mark stamp = v ∨ (v.mark stamp).deleted.any (·.transaction == transaction) = true := by
  rw [unmark, clear_mark unmarked]
  split
  · simp [*]
  · simp [*]

/-- Marks are exact for the ids below 2^40 and for no others: the stamp is read back, and the mark is
taken off for the transaction that has set it and for no other. -/
theorem mark_exact_iff (unmarked : v.isMarked = false) (pos : 1 ≤ id) (statement : Nat) :
    ((v.mark (.of id statement)).deleted = some (.of id statement) ↔ id < 2 ^ 40) ∧
    ((∀ other, (v.mark (.of id statement)).unmark other = v ↔ other = id) ↔ id < 2 ^ 40) := by
  have hread := deleted_mark_eq v id statement
  have hbelow : id % 2 ^ 40 < 2 ^ 40 := Int.emod_lt_of_pos id (by decide)
  refine ⟨⟨fun h => ?_, deleted_mark (by omega)⟩, fun h => ?_, fun few other => ?_⟩
  · rw [h] at hread
    split at hread
    · cases hread
    · have hid : id = id % 2 ^ 40 := congrArg Stamp.transaction (Option.some.inj hread)
      omega
  · rcases (unmark_mark_eq unmarked _ id).mp ((h id).mpr rfl) with hnothing | hread'
    · -- Nothing was marked, so there is nothing to take off for anybody.
      have hnext := (h (id + 1)).mp ((unmark_mark_eq unmarked _ _).mpr (Or.inl hnothing))
      omega
    · rw [hread] at hread'
      split at hread'
      · cases hread'
      · have hid : id % 2 ^ 40 = id := by simpa using hread'
        omega
  · have hdeleted : (v.mark (.of id statement)).deleted = some (.of id statement) :=
      deleted_mark (by omega) few
    have hmarked : v.mark (.of id statement) ≠ v := by
      intro hsame
      rw [hsame, deleted_eq_none.mpr (isMarked_eq_false.mp unmarked)] at hdeleted
      cases hdeleted
    rw [unmark_mark_eq unmarked, hdeleted, or_iff_right hmarked, Option.any_some, beq_iff_eq]
    exact eq_comm

/-- A version that bears no mark. -/
def plain : Version := ⟨⟨0, false⟩, ⟨⟨0, [⟨"letter", 0, .fixed 1⟩], 1⟩, [97], rfl⟩, .of 1 1, 0⟩

/-- The greatest id for which marks are exact. -/
theorem mark_exact_last : plain.isMarked = false ∧ (1 : Int) ≤ 2 ^ 40 - 1 ∧
    (plain.mark (.of (2 ^ 40 - 1) 3)).deleted = some (.of (2 ^ 40 - 1) 3) ∧
    ∀ other, (plain.mark (.of (2 ^ 40 - 1) 3)).unmark other = plain ↔ other = 2 ^ 40 - 1 := by
  have hunmarked : plain.isMarked = false := by decide
  have hpos : (1 : Int) ≤ 2 ^ 40 - 1 := by decide
  have hfew : (2 ^ 40 - 1 : Int) < 2 ^ 40 := by decide
  obtain ⟨hread, hcleared⟩ := mark_exact_iff hunmarked hpos 3
  exact ⟨hunmarked, hpos, hread.mpr hfew, hcleared.mpr hfew⟩

/-- The mark of the first id that has outgrown the word is nobody's, and its writer cannot take it off. -/
theorem mark_outgrown : (∃ calls, Ledger.Orderly {} calls ∧ Ledger.Began calls (2 ^ 40)) ∧
    plain.isMarked = false ∧
    (plain.mark (.of (2 ^ 40) 1)).deleted = some ⟨Ledger.noTransaction, 1⟩ ∧
    (plain.mark (.of (2 ^ 40) 1)).unmark (2 ^ 40) = plain.mark (.of (2 ^ 40) 1) :=
  ⟨Ledger.exists_began (by decide), by decide, by decide, by decide⟩

end Version
end SnapshotStore
