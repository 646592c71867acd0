import Mathlib
import SnapshotStore.Proofs.Table.Write

/-!
# What the indexes answer to a record that fits them

A record may be laid out in any way, so an index may fail to find its key in it. Where every index can
(`Fits`), none fails on account of the other rows, whatever these hold: the versions of all rows have
their keys too. So there is one thing left that an index can say, which is that the key belongs to
another row, and the first index that says so decides (`Ok.insertRow_outcome`, `Ok.updateRow_outcome`).
-/

namespace SnapshotStore
namespace Table

open Fallible Chain

/-- Every index finds the key of the record, and the key is within the limit. -/
def Fits (table : Table) (record : Record) : Prop :=
  ∀ {i : Nat} {index : Index}, table.indexes[i]? = some index →
    ∃ key, index.spec.Keyed table.maxKeyLength record key

theorem fits_iff {table : Table} {record : Record} :
    (∀ index ∈ table.indexes,
      (index.spec.keyOf record).toOption.any (·.length ≤ table.maxKeyLength) = true) ↔
        table.Fits record := by
  constructor
  · intro h i index hindex
    have hfits := h index (List.mem_of_getElem? hindex)
    cases hkey : index.spec.keyOf record with
    | error error =>
      rw [hkey] at hfits
      cases hfits
    | ok key =>
      rw [hkey] at hfits
      exact ⟨key, hkey, of_decide_eq_true hfits⟩
  · intro fits index hindex
    obtain ⟨i, hi⟩ := List.mem_iff_getElem?.mp hindex
    obtain ⟨key, hkey, hlength⟩ := fits hi
    rw [hkey]
    exact decide_eq_true hlength

instance (table : Table) (record : Record) : Decidable (table.Fits record) :=
  decidable_of_iff _ fits_iff

/-- The index of that number is unique, and there the key of the record belongs to a row other than
`row`. -/
def Contested (table : Table) (l : Ledger) (transaction : Int) (record : Record) (row : RowHandle)
    (i : Nat) : Prop :=
  ∃ index key, table.indexes[i]? = some index ∧ index.spec.unique = true ∧
    index.spec.Keyed table.maxKeyLength record key ∧ ¬ Free l transaction index.spec key row table

/-- The two records have different keys in the index of that number. -/
def Rekeyed (table : Table) (old new : Record) (i : Nat) : Prop :=
  ∃ index, table.indexes[i]? = some index ∧ index.spec.sameKey old new = .ok false

variable {l : Ledger} {transaction : Int} {old record : Record} {row : RowHandle} {table : Table}

/-! ## 1. The first refusal -/

/-- If each index either refuses because the key is taken or does not refuse, the least one that refuses
decides. -/
theorem verdict_cases {step : Table → Nat → Except Refusal (Table × List Write)} {taken : Nat → Prop}
    (within : ∀ i, taken i → i < table.indexes.length)
    (refuses : ∀ i, taken i → refusal? (step table i) = some (.taken i))
    (passes : ∀ i, i < table.indexes.length → ¬ taken i → refusal? (step table i) = none) :
    (∃ i, IsLeast {i | taken i} i ∧ table.verdict step = some (.taken i)) ∨
      (∀ i, ¬ taken i) ∧ table.verdict step = none := by
  cases hverdict : table.verdict step with
  | none =>
    refine Or.inr ⟨fun i hi => ?_, rfl⟩
    have hnone := List.findSome?_eq_none_iff.mp hverdict i (List.mem_range.mpr (within i hi))
    rw [refuses i hi] at hnone
    cases hnone
  | some refusal =>
    obtain ⟨before, i, after, hrange, hi, hbefore⟩ := List.findSome?_eq_some_iff.mp hverdict
    have hlt : i < table.indexes.length := by
      rw [← List.mem_range, hrange]
      exact List.mem_append_right _ List.mem_cons_self
    have htaken : taken i := by
      by_contra hnot
      rw [passes i hlt hnot] at hi
      cases hi
    refine Or.inl ⟨i, ⟨htaken, fun j hj => ?_⟩, ?_⟩
    · -- The numbers are in order, so whatever lies below `i` was asked before it.
      by_contra hji
      have hmem := List.mem_range.mpr (within j hj)
      have hsorted : (List.range table.indexes.length).Pairwise (· < ·) := List.pairwise_lt_range
      rw [hrange] at hmem hsorted
      rcases List.mem_append.mp hmem with hin | hin
      · have hnone := hbefore j hin
        rw [refuses j hj] at hnone
        cases hnone
      · rcases List.mem_cons.mp hin with rfl | hin
        · exact hji (Nat.le_refl _)
        · have hij := (List.pairwise_cons.mp (List.pairwise_append.mp hsorted).2.1).1 j hin
          exact hji (Nat.le_of_lt hij)
    · rw [← hi]
      exact refuses i htaken

/-- What comes of a write on which the indexes decide like this. -/
theorem outcome_of_verdict {verdict : Option Refusal} {taken : Nat → Prop}
    {outcome : Except Error WriteOutcome} {ref : RowRef}
    (hverdict : (∃ i, IsLeast {i | taken i} i ∧ verdict = some (.taken i)) ∨
      (∀ i, ¬ taken i) ∧ verdict = none)
    (houtcome : (∃ refusal, verdict = some refusal ∧ outcome = refusal.outcome) ∨
      verdict = none ∧ outcome = .ok (.written ref)) :
    (∃ i, IsLeast {i | taken i} i ∧ outcome = .ok (.keyExists i)) ∨
      (∀ i, ¬ taken i) ∧ outcome = .ok (.written ref) := by
  rcases hverdict with ⟨i, hleast, rfl⟩ | ⟨hfree, rfl⟩
  · rcases houtcome with ⟨refusal, hrefusal, rfl⟩ | ⟨hnone, _⟩
    · cases hrefusal
      exact Or.inl ⟨i, hleast, rfl⟩
    · cases hnone
  · rcases houtcome with ⟨refusal, hrefusal, _⟩ | ⟨_, rfl⟩
    · cases hrefusal
    · exact Or.inr ⟨hfree, rfl⟩

/-! ## 2. The answers of the indexes -/

section Answers

variable {i : Nat}

theorem free_congr {other : Table} {spec : KeySpec} {key : Bytes}
    (hchain : ∀ owner : RowHandle, owner ≠ row → other.chainOf owner = table.chainOf owner) :
    Free l transaction spec key row other ↔ Free l transaction spec key row table :=
  forall₂_congr fun owner hne => by rw [hchain owner hne]

theorem contested_congr {other : Table} (hindexes : other.indexes = table.indexes)
    (hlimit : other.maxKeyLength = table.maxKeyLength)
    (hchain : ∀ owner : RowHandle, owner ≠ row → other.chainOf owner = table.chainOf owner) :
    other.Contested l transaction record row i ↔ table.Contested l transaction record row i := by
  rw [Contested, Contested, hindexes, hlimit]
  simp only [free_congr hchain]

variable (answers : ∀ {i : Nat} {index : Index}, table.indexes[i]? = some index →
  Answers l table row index)
include answers

/-- Binding the key of a record is refused if the key is contested, and for no other reason. -/
theorem refusal_bindEntry_keyed {index : Index} {key : Bytes} (hindex : table.indexes[i]? = some index)
    (keyed : index.spec.Keyed table.maxKeyLength record key) :
    (table.Contested l transaction record row i →
      refusal? (table.bindEntry l transaction i index (Key.entry key row) row) = some (.taken i)) ∧
    (¬ table.Contested l transaction record row i →
      refusal? (table.bindEntry l transaction i index (Key.entry key row) row) = none) := by
  rcases bindEntry_spec i (answers hindex) transaction key with
    ⟨hunique, howned, hresult⟩ | ⟨hfree, hresult⟩
  · rw [hresult]
    exact ⟨fun _ => rfl, fun hnot => absurd ⟨index, key, hindex, hunique, keyed, howned⟩ hnot⟩
  · rw [hresult]
    refine ⟨fun ⟨index', key', hindex', hunique, keyed', howned⟩ => ?_, fun _ => rfl⟩
    rw [hindex] at hindex'
    cases hindex'
    rw [keyed'.unique keyed] at howned
    exact absurd (hfree hunique) howned

theorem refusal_bindRecord_fits (fits : table.Fits record) (hi : i < table.indexes.length) :
    (table.Contested l transaction record row i →
      refusal? (bindRecord l transaction record row table i) = some (.taken i)) ∧
    (¬ table.Contested l transaction record row i →
      refusal? (bindRecord l transaction record row table i) = none) := by
  have hindex := List.getElem?_eq_getElem hi
  obtain ⟨key, keyed⟩ := fits hindex
  rw [bindRecord, index_eq_ok hindex, mapError_ok, ok_bind, keyed.entry_eq row, mapError_ok, ok_bind]
  exact refusal_bindEntry_keyed answers hindex keyed

/-- The index of an unchanged key is not asked at all. -/
theorem refusal_rebindRecord_fits (fitted : table.Fits old) (fits : table.Fits record)
    (hi : i < table.indexes.length) :
    (table.Rekeyed old record i ∧ table.Contested l transaction record row i →
      refusal? (rebindRecord l transaction old record row table i) = some (.taken i)) ∧
    (¬ (table.Rekeyed old record i ∧ table.Contested l transaction record row i) →
      refusal? (rebindRecord l transaction old record row table i) = none) := by
  have hindex := List.getElem?_eq_getElem hi
  obtain ⟨oldKey, oldKeyed⟩ := fitted hindex
  obtain ⟨key, keyed⟩ := fits hindex
  obtain ⟨oldParts, holdParts, _⟩ := KeySpec.keyOf_eq_ok.mp oldKeyed.1
  obtain ⟨parts, hparts, _⟩ := KeySpec.keyOf_eq_ok.mp keyed.1
  have hsame : table.indexes[i].spec.sameKey old record = .ok (decide (oldParts = parts)) :=
    KeySpec.sameParts_of_mapM holdParts hparts
  have hrekeyed : table.Rekeyed old record i ↔ decide (oldParts = parts) = false := by
    rw [Rekeyed, hindex]
    simp only [Option.some.injEq, exists_eq_left', hsame, Except.ok.injEq]
  rw [rebindRecord, index_eq_ok hindex, mapError_ok, ok_bind, hsame, mapError_ok, ok_bind, hrekeyed]
  cases decide (oldParts = parts) with
  | true => exact ⟨fun h => absurd h.1 (Ne.symm Bool.false_ne_true), fun _ => rfl⟩
  | false =>
    rw [if_neg Bool.false_ne_true, oldKeyed.entry_eq row, mapError_ok, ok_bind, keyed.entry_eq row,
      mapError_ok, ok_bind]
    obtain ⟨hrefused, hpassed⟩ : (table.Contested l transaction record row i →
          refusal? (table.bindEntry l transaction i table.indexes[i] (Key.entry key row) row) =
            some (.taken i)) ∧
        (¬ table.Contested l transaction record row i →
          refusal? (table.bindEntry l transaction i table.indexes[i] (Key.entry key row) row) = none) :=
      refusal_bindEntry_keyed answers hindex keyed
    cases hresult : table.bindEntry l transaction i table.indexes[i] (Key.entry key row) row with
    | error refusal =>
      rw [hresult] at hrefused hpassed
      exact ⟨fun h => hrefused h.2, fun h => hpassed fun hc => h ⟨rfl, hc⟩⟩
    | ok done =>
      rw [hresult] at hrefused
      exact ⟨fun h => hrefused h.2, fun _ => rfl⟩

end Answers

/-! ## 3. What comes of a write -/

section Writes

variable {work : Work} {tid : TableId} (ok : Ok l work tid [] table)
include ok

/-- Every version that a row has fits. -/
theorem Ok.fits {v : Version} (h : v ∈ table.chainOf row) : table.Fits v.record :=
  fun hindex => (ok.indexes hindex).keyed h

/-- While a row is being written, the indexes answer for all other rows. -/
theorem Ok.answers_begun (begun : Table) {row : RowHandle}
    (hindexes : begun.indexes = table.indexes) (hlimit : begun.maxKeyLength = table.maxKeyLength)
    (hrows : ∀ other : RowHandle, other ≠ row → begun.rows[other]? = table.rows[other]?) {i : Nat}
    {index : Index} (hindex : begun.indexes[i]? = some index) : Answers l begun row index :=
  ok.answers hindexes hlimit hrows rfl hindex

section Begun

variable {begun : Table} (hindexes : begun.indexes = table.indexes)
  (hlimit : begun.maxKeyLength = table.maxKeyLength)
  (hrows : ∀ other : RowHandle, other ≠ row → begun.rows[other]? = table.rows[other]?)
include hindexes hlimit hrows

omit ok in
theorem contested_begun (i : Nat) : begun.Contested l transaction record row i ↔
    table.Contested l transaction record row i := by
  refine contested_congr hindexes hlimit fun other hne => ?_
  rw [chainOf, chainOf, hrows other hne]

omit ok hrows in
theorem fits_begun (fits : table.Fits record) : begun.Fits record := by
  intro i index hindex
  rw [hindexes] at hindex
  rw [hlimit]
  exact fits hindex

omit ok hlimit hrows in
theorem rekeyed_begun (i : Nat) : begun.Rekeyed old record i ↔ table.Rekeyed old record i := by
  rw [Rekeyed, Rekeyed, hindexes]

omit ok hindexes hlimit hrows in
theorem lt_of_contested {i : Nat} (h : table.Contested l transaction record row i) :
    i < table.indexes.length := by
  obtain ⟨_, _, hindex, _⟩ := h
  exact (List.getElem?_eq_some_iff.mp hindex).1

theorem Ok.verdict_insert (transaction : Int) (fits : table.Fits record) :
    (∃ i, IsLeast {i | table.Contested l transaction record row i} i ∧
      begun.verdict (bindRecord l transaction record row) = some (.taken i)) ∨
    (∀ i, ¬ table.Contested l transaction record row i) ∧
      begun.verdict (bindRecord l transaction record row) = none := by
  have answers : ∀ {i : Nat} {index : Index}, begun.indexes[i]? = some index →
      Answers l begun row index := ok.answers_begun begun hindexes hlimit hrows
  have hfits : begun.Fits record := fits_begun hindexes hlimit fits
  refine verdict_cases (fun i hi => ?_) (fun i hi => ?_) fun i hi hnot => ?_
  · rw [hindexes]
    exact lt_of_contested hi
  · have hcontested := (contested_begun hindexes hlimit hrows i).mpr hi
    exact (refusal_bindRecord_fits answers hfits (lt_of_contested hcontested)).1 hcontested
  · exact (refusal_bindRecord_fits answers hfits hi).2 fun h =>
      hnot ((contested_begun hindexes hlimit hrows i).mp h)

theorem Ok.verdict_update (transaction : Int) (fitted : table.Fits old) (fits : table.Fits record) :
    (∃ i, IsLeast {i | table.Rekeyed old record i ∧ table.Contested l transaction record row i} i ∧
      begun.verdict (rebindRecord l transaction old record row) = some (.taken i)) ∨
    (∀ i, ¬ (table.Rekeyed old record i ∧ table.Contested l transaction record row i)) ∧
      begun.verdict (rebindRecord l transaction old record row) = none := by
  have answers : ∀ {i : Nat} {index : Index}, begun.indexes[i]? = some index →
      Answers l begun row index := ok.answers_begun begun hindexes hlimit hrows
  have hfitted : begun.Fits old := fits_begun hindexes hlimit fitted
  have hfits : begun.Fits record := fits_begun hindexes hlimit fits
  have hsame : ∀ i, begun.Rekeyed old record i ∧ begun.Contested l transaction record row i ↔
      table.Rekeyed old record i ∧ table.Contested l transaction record row i :=
    fun i => and_congr (rekeyed_begun hindexes i) (contested_begun hindexes hlimit hrows i)
  refine verdict_cases (fun i hi => ?_) (fun i hi => ?_) fun i hi hnot => ?_
  · rw [hindexes]
    exact lt_of_contested hi.2
  · have hcontested := (hsame i).mpr hi
    exact (refusal_rebindRecord_fits answers hfitted hfits (lt_of_contested hcontested.2)).1 hcontested
  · exact (refusal_rebindRecord_fits answers hfitted hfits hi).2 fun h => hnot ((hsame i).mp h)

end Begun

/-- An insert of a record that fits goes through unless its key is contested in some index, and then the
least such index is named. -/
theorem Ok.insertRow_outcome (txn : Transaction) (hrow : RowHandle.ofNat? table.nextHandle = some row)
    (fits : table.Fits record) :
    (∃ i, IsLeast {i | table.Contested l txn.id record row i} i ∧
      (table.insertRow l txn record).outcome = .ok (.keyExists i)) ∨
    (∀ i, ¬ table.Contested l txn.id record row i) ∧
      (table.insertRow l txn record).outcome =
        .ok (.written ⟨row, table.newVersion txn record, []⟩) := by
  have hrows : ∀ other : RowHandle, other ≠ row →
      (table.begunInsert txn record row).rows[other]? = table.rows[other]? := by
    intro other hne
    rw [rows_begunInsert, if_neg hne]
  have hindexes : (table.begunInsert txn record row).indexes = table.indexes := rfl
  have hlimit : (table.begunInsert txn record row).maxKeyLength = table.maxKeyLength := rfl
  have hverdict := ok.verdict_insert hindexes hlimit hrows txn.id fits
  rcases ok.insertRow_spec txn record with ⟨hnone, _⟩ |
    ⟨row', hrow', ⟨refusal, hrefusal, houtcome, _⟩ | ⟨hpassed, houtcome, _⟩⟩
  · rw [hrow] at hnone
    cases hnone
  · rw [hrow] at hrow'
    cases hrow'
    exact outcome_of_verdict hverdict (Or.inl ⟨refusal, hrefusal, houtcome⟩)
  · rw [hrow] at hrow'
    cases hrow'
    exact outcome_of_verdict hverdict (Or.inr ⟨hpassed, houtcome⟩)

/-- An update by a record that fits, where it meets no conflict, goes through unless the key has changed
in some index and is contested there, and then the least such index is named. -/
theorem Ok.updateRow_outcome (txn : Transaction) {newest : Version} {older : Chain}
    (hchain : table.chainOf row = newest :: older)
    (writable : newest.isWritable l txn.id txn.snapshot = true) (fits : table.Fits record) :
    (∃ i, IsLeast {i | table.Rekeyed newest.record record i ∧
        table.Contested l txn.id record row i} i ∧
      (table.updateRow l txn row record).outcome = .ok (.keyExists i)) ∨
    (∀ i, ¬ (table.Rekeyed newest.record record i ∧ table.Contested l txn.id record row i)) ∧
      (table.updateRow l txn row record).outcome =
        .ok (.written ⟨row, table.newVersion txn record, newest :: older⟩) := by
  have hrows : ∀ other : RowHandle, other ≠ row →
      (table.begunUpdate txn record row).rows[other]? = table.rows[other]? := by
    intro other hne
    rw [rows_begunUpdate, if_neg hne]
  have hindexes : (table.begunUpdate txn record row).indexes = table.indexes := rfl
  have hlimit : (table.begunUpdate txn record row).maxKeyLength = table.maxKeyLength := rfl
  have hnewest : newest ∈ table.chainOf row := by
    rw [hchain]
    exact List.mem_cons_self
  have hverdict := ok.verdict_update hindexes hlimit hrows txn.id (ok.fits hnewest) fits
  rcases ok.updateRow_spec txn row record with ⟨hconflict, _⟩ | ⟨newest', older', hchain', _, hcases⟩
  · rw [hconflict newest older hchain] at writable
    cases writable
  · rw [hchain] at hchain'
    cases hchain'
    rcases hcases with ⟨refusal, hrefusal, houtcome, _⟩ | ⟨hpassed, houtcome, _⟩
    · exact outcome_of_verdict hverdict (Or.inl ⟨refusal, hrefusal, houtcome⟩)
    · exact outcome_of_verdict hverdict (Or.inr ⟨hpassed, houtcome⟩)

end Writes

end Table
end SnapshotStore
