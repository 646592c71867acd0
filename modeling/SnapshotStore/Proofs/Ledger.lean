import Mathlib
import SnapshotStore.Ledger
import SnapshotStore.Proofs.Maps

/-!
# What the ledger knows

The state of a transaction is spread over three maps and a mark (`Ledger.Ok`). The store asks one
question only, whether a transaction committed at or below a bound, and `committedBy_iff` answers it
from the parts. From there on the theory has two halves: how each operation of the ledger changes the
answers (section 3), and that the horizon, the greatest bound below all snapshots, never goes down.

The horizon is what makes forgetting harmless: a transaction that committed at or below it is seen by
everybody now and later, so for a bound at or above the horizon it does not matter when it committed.
-/

namespace SnapshotStore
namespace Ledger

open Maps

/-- The parts of a ledger agree. -/
structure Ok (l : Ledger) : Prop where
  sequence_nonneg : 0 ≤ l.sequence
  mark_nonneg : 0 ≤ l.prunedMark
  mark_le : l.prunedMark ≤ l.lastId
  active : ∀ {id s : Int}, l.active[id]? = some s → 0 < id ∧ id ≤ l.lastId ∧ 0 ≤ s ∧ s ≤ l.sequence
  committed : ∀ {id c : Int}, l.committed[id]? = some c →
    0 < id ∧ id ≤ l.lastId ∧ 0 < c ∧ c ≤ l.sequence
  aborted : ∀ {id c : Int}, l.aborted[id]? = some c → 0 < id ∧ id ≤ l.lastId
  running : ∀ {id s : Int}, l.active[id]? = some s → l.committed[id]? = none ∧ l.aborted[id]? = none
  ended : ∀ {id c : Int}, l.committed[id]? = some c → l.aborted[id]? = none

theorem ok_new : Ok {} := by
  refine ⟨Int.le_refl 0, Int.le_refl 0, Int.le_refl 0, ?_, ?_, ?_, ?_, ?_⟩ <;>
    intro id c h <;> simp at h

/-! ## 1. Who committed -/

theorem committedBy_eq (l : Ledger) (id bound : Int) :
    l.committedBy id bound = (l.commitSequence? id).any (· ≤ bound) := rfl

/-- A transaction committed by a bound if its commit is on record and not later, or is forgotten. -/
theorem committedBy_iff {l : Ledger} {id bound : Int} :
    l.committedBy id bound = true ↔ 0 < id ∧ ((∃ c, l.committed[id]? = some c ∧ c ≤ bound) ∨
      l.committed[id]? = none ∧ id ≤ l.prunedMark ∧ l.active[id]? = none ∧ l.aborted[id]? = none ∧
        0 ≤ bound) := by
  rw [committedBy, commitSequence?, noTransaction, frozen]
  by_cases hid : id ≤ 0
  · simp only [if_pos hid, Option.any_none, Bool.false_eq_true, false_iff]
    omega
  · rw [if_neg hid]
    have hpos : 0 < id := by omega
    cases hc : l.committed[id]? with
    | some c => simp [hpos]
    | none =>
      simp only [Std.ExtTreeMap.contains_eq_isSome_getElem?, hpos, true_and, reduceCtorEq,
        false_and, exists_false, false_or]
      cases ha : l.active[id]? with
      | some s => simp
      | none =>
        cases hb : l.aborted[id]? with
        | some s => simp
        | none =>
          by_cases hm : id ≤ l.prunedMark
          · have hm' : ¬ id > l.prunedMark := by omega
            simp [hm, hm']
          · have hm' : id > l.prunedMark := by omega
            simp [hm, hm']

theorem committedBy_mono {l : Ledger} {id a b : Int} (h : l.committedBy id a = true) (hab : a ≤ b) :
    l.committedBy id b = true := by
  rw [committedBy_iff] at h ⊢
  obtain ⟨hpos, ⟨c, hc, hle⟩ | ⟨hnone, hmark, ha, hb, hbound⟩⟩ := h
  · exact ⟨hpos, Or.inl ⟨c, hc, by omega⟩⟩
  · exact ⟨hpos, Or.inr ⟨hnone, hmark, ha, hb, by omega⟩⟩

/-- Every commit has a sequence that has been drawn. -/
theorem isCommitted_iff {l : Ledger} (ok : l.Ok) {id : Int} :
    l.isCommitted id = true ↔ l.committedBy id l.sequence = true := by
  rw [isCommitted, committedBy]
  cases h : l.commitSequence? id with
  | none => simp
  | some c =>
    simp only [Option.isSome_some, Option.any_some, decide_eq_true_eq, true_iff]
    rw [commitSequence?] at h
    split at h
    · cases h
    · split at h
      · rename_i hc
        cases h
        exact (ok.committed hc).2.2.2
      · split at h
        · cases h
        · cases h
          exact ok.sequence_nonneg

theorem isCommitted_of_committedBy {l : Ledger} {id bound : Int}
    (h : l.committedBy id bound = true) : l.isCommitted id = true := by
  rw [committedBy] at h
  rw [isCommitted]
  cases hc : l.commitSequence? id with
  | none => rw [hc] at h; cases h
  | some c => rfl

/-- Nobody is shown the writes of somebody who has not committed. -/
theorem not_committedBy {l : Ledger} {id : Int} (h : l.isCommitted id = false) (bound : Int) :
    l.committedBy id bound = false := by
  by_contra hne
  rw [isCommitted_of_committedBy (Bool.not_eq_false _ ▸ hne)] at h
  cases h

/-- Who runs has a snapshot. -/
theorem isActive_iff {l : Ledger} {id : Int} :
    l.isActive id = true ↔ ∃ snapshot, l.active[id]? = some snapshot := by
  rw [isActive, Std.ExtTreeMap.contains_eq_isSome_getElem?, Option.isSome_iff_exists]

/-- A running transaction has not committed. -/
theorem not_isCommitted_of_active {l : Ledger} (ok : l.Ok) {id s : Int}
    (h : l.active[id]? = some s) : l.isCommitted id = false := by
  by_contra hne
  rw [Bool.not_eq_false, isCommitted_iff ok, committedBy_iff] at hne
  obtain ⟨_, ⟨c, hc, _⟩ | ⟨_, _, ha, _⟩⟩ := hne
  · rw [(ok.running h).1] at hc
    cases hc
  · rw [h] at ha
    cases ha

/-! ## 2. The horizon -/

theorem le_foldl_min {xs : List Int} {a b : Int} :
    b ≤ xs.foldl min a ↔ b ≤ a ∧ ∀ x ∈ xs, b ≤ x := by
  induction xs generalizing a with
  | nil => simp
  | cons x xs ih =>
    rw [List.foldl_cons, ih, le_min_iff, List.forall_mem_cons, and_assoc]

theorem foldl_max_le {xs : List Int} {a b : Int} :
    xs.foldl max a ≤ b ↔ a ≤ b ∧ ∀ x ∈ xs, x ≤ b := by
  induction xs generalizing a with
  | nil => simp
  | cons x xs ih =>
    rw [List.foldl_cons, ih, max_le_iff, List.forall_mem_cons, and_assoc]

/-- The horizon is the greatest bound below the sequence and all snapshots. -/
theorem le_horizon_iff {l : Ledger} {b : Int} :
    b ≤ l.horizon ↔ b ≤ l.sequence ∧ ∀ {id s : Int}, l.active[id]? = some s → b ≤ s := by
  rw [horizon, le_foldl_min]
  apply and_congr_right
  intro _
  constructor
  · intro h id s hs
    exact h s (List.mem_map.mpr ⟨(id, s), Std.ExtTreeMap.mem_toList_iff_getElem?_eq_some.mpr hs, rfl⟩)
  · intro h x hx
    obtain ⟨⟨id, s⟩, hmem, rfl⟩ := List.mem_map.mp hx
    exact h (Std.ExtTreeMap.mem_toList_iff_getElem?_eq_some.mp hmem)

theorem horizon_le_sequence (l : Ledger) : l.horizon ≤ l.sequence :=
  (le_horizon_iff.mp (Int.le_refl _)).1

theorem horizon_le_snapshot {l : Ledger} {id s : Int} (h : l.active[id]? = some s) :
    l.horizon ≤ s :=
  (le_horizon_iff.mp (Int.le_refl _)).2 h

theorem horizon_nonneg {l : Ledger} (ok : l.Ok) : 0 ≤ l.horizon :=
  le_horizon_iff.mpr ⟨ok.sequence_nonneg, fun h => (ok.active h).2.2.1⟩

/-! ## 3. The operations -/

/-- What a ledger becomes: nothing that is known to have committed is lost, and the horizon does not
go down. -/
structure Grows (l l' : Ledger) : Prop where
  lastId_le : l.lastId ≤ l'.lastId
  sequence_le : l.sequence ≤ l'.sequence
  horizon_le : l.horizon ≤ l'.horizon
  committedBy : ∀ {id b : Int}, 0 ≤ b → l.committedBy id b = true → l'.committedBy id b = true

namespace Grows

theorem refl (l : Ledger) : Grows l l :=
  ⟨Int.le_refl _, Int.le_refl _, Int.le_refl _, fun _ h => h⟩

theorem trans {a b c : Ledger} (hab : Grows a b) (hbc : Grows b c) : Grows a c :=
  ⟨Int.le_trans hab.lastId_le hbc.lastId_le, Int.le_trans hab.sequence_le hbc.sequence_le,
    Int.le_trans hab.horizon_le hbc.horizon_le,
    fun hb h => hbc.committedBy hb (hab.committedBy hb h)⟩

theorem isCommitted {l l' : Ledger} (grows : Grows l l') (ok : l.Ok) {id : Int}
    (h : l.isCommitted id = true) : l'.isCommitted id = true :=
  isCommitted_of_committedBy (grows.committedBy ok.sequence_nonneg ((isCommitted_iff ok).mp h))

/-- What everybody sees, everybody goes on seeing. -/
theorem settled {l l' : Ledger} (grows : Grows l l') (ok : l.Ok) {id : Int}
    (h : l.committedBy id l.horizon = true) : l'.committedBy id l'.horizon = true :=
  committedBy_mono (grows.committedBy (horizon_nonneg ok) h) grows.horizon_le

end Grows

section Operations

variable {l : Ledger} (ok : l.Ok)

/-! ### Accepting -/

include ok in
theorem ok_accepting (on : Bool) : ({ l with accepting := on } : Ledger).Ok :=
  ⟨ok.sequence_nonneg, ok.mark_nonneg, ok.mark_le, ok.active, ok.committed, ok.aborted, ok.running,
    ok.ended⟩

theorem grows_accepting (l : Ledger) (on : Bool) : Grows l { l with accepting := on } :=
  ⟨Int.le_refl _, Int.le_refl _, Int.le_refl _, fun _ h => h⟩

/-! ### Beginning -/

theorem begin?_eq_some {l' : Ledger} {id snapshot : Int} :
    l.begin? = some (l', id, snapshot) ↔ l.accepting = true ∧ id = l.lastId + 1 ∧
      snapshot = l.sequence + 1 ∧ l' = { l with
        lastId := id, sequence := snapshot, active := l.active.insert id snapshot } := by
  rw [begin?]
  split
  · rename_i h
    simp only [h, true_and, Option.some.injEq, Prod.mk.injEq]
    constructor
    · rintro ⟨rfl, rfl, rfl⟩
      exact ⟨rfl, rfl, rfl⟩
    · rintro ⟨rfl, rfl, rfl⟩
      exact ⟨rfl, rfl, rfl⟩
  · rename_i h
    simp [h]

include ok

/-- No map speaks of an id that has not been handed out. -/
theorem fresh {id : Int} (h : l.lastId < id) :
    l.active[id]? = none ∧ l.committed[id]? = none ∧ l.aborted[id]? = none := by
  refine ⟨?_, ?_, ?_⟩ <;> by_contra hne <;> obtain ⟨s, hs⟩ := Option.ne_none_iff_exists'.mp hne
  · have := (ok.active hs).2.1
    omega
  · have := (ok.committed hs).2.1
    omega
  · have := (ok.aborted hs).2
    omega

variable {l' : Ledger} {id snapshot : Int} (h : l.begin? = some (l', id, snapshot))
include h

theorem ok_begin : l'.Ok := by
  obtain ⟨_, rfl, rfl, rfl⟩ := begin?_eq_some.mp h
  obtain ⟨ha, hc, hb⟩ := fresh ok (show l.lastId < l.lastId + 1 by omega)
  have hseq := ok.sequence_nonneg
  have hmark := ok.mark_le
  have hnonneg := ok.mark_nonneg
  refine ⟨?_, hnonneg, ?_, ?_, ?_, ?_, ?_, fun h => ok.ended h⟩
  · show 0 ≤ l.sequence + 1
    omega
  · show l.prunedMark ≤ l.lastId + 1
    omega
  · intro id s hs
    rw [get_insert] at hs
    show 0 < id ∧ id ≤ l.lastId + 1 ∧ 0 ≤ s ∧ s ≤ l.sequence + 1
    split at hs
    · cases hs
      omega
    · have := ok.active hs
      omega
  · intro id c hid
    have := ok.committed hid
    show 0 < id ∧ id ≤ l.lastId + 1 ∧ 0 < c ∧ c ≤ l.sequence + 1
    omega
  · intro id c hid
    have := ok.aborted hid
    show 0 < id ∧ id ≤ l.lastId + 1
    omega
  · intro id s hs
    rw [get_insert] at hs
    split at hs
    · rename_i heq
      rw [heq]
      exact ⟨hc, hb⟩
    · exact ok.running hs

/-- A new transaction changes nothing about who committed. -/
theorem committedBy_begin (other bound : Int) :
    l'.committedBy other bound = l.committedBy other bound := by
  obtain ⟨_, rfl, rfl, rfl⟩ := begin?_eq_some.mp h
  rw [Bool.eq_iff_iff, committedBy_iff, committedBy_iff]
  have hmark := ok.mark_le
  simp only [get_insert]
  by_cases heq : other = l.lastId + 1
  · obtain ⟨_, hc, _⟩ := fresh ok (show l.lastId < other by omega)
    have hnot : ¬ other ≤ l.prunedMark := by omega
    simp [hc, hnot]
  · simp [heq]

theorem grows_begin : Grows l l' := by
  have heq := committedBy_begin ok h
  obtain ⟨_, rfl, rfl, rfl⟩ := begin?_eq_some.mp h
  refine ⟨?_, ?_, ?_, fun _ hc => by rw [heq]; exact hc⟩
  · show l.lastId ≤ l.lastId + 1
    omega
  · show l.sequence ≤ l.sequence + 1
    omega
  · have hle := horizon_le_sequence l
    rw [le_horizon_iff]
    refine ⟨?_, fun {id s} hs => ?_⟩
    · show l.horizon ≤ l.sequence + 1
      omega
    · rw [get_insert] at hs
      split at hs
      · cases hs
        omega
      · exact horizon_le_snapshot hs

end Operations

/-! ### A fresh snapshot -/

section Refresh

variable {l : Ledger} (ok : l.Ok) (id : Int)

theorem active_refresh (other : Int) : (l.refresh id).1.active[other]? =
    if other = id then l.active[other]?.map (fun _ => l.sequence) else l.active[other]? :=
  get_modify _ _ _ _

theorem committedBy_refresh (other bound : Int) :
    (l.refresh id).1.committedBy other bound = l.committedBy other bound := by
  rw [Bool.eq_iff_iff, committedBy_iff, committedBy_iff, active_refresh]
  have hnone : (if other = id then l.active[other]?.map (fun _ => l.sequence)
      else l.active[other]?) = none ↔ l.active[other]? = none := by
    split <;> simp
  simp only [hnone]
  rfl

theorem grows_refresh : Grows l (l.refresh id).1 := by
  refine ⟨Int.le_refl _, Int.le_refl _, ?_, fun _ h => by rw [committedBy_refresh]; exact h⟩
  rw [le_horizon_iff]
  refine ⟨horizon_le_sequence l, fun {other s} hs => ?_⟩
  rw [active_refresh] at hs
  split at hs
  · obtain ⟨old, hold, rfl⟩ := Option.map_eq_some_iff.mp hs
    exact horizon_le_sequence l
  · exact horizon_le_snapshot hs

include ok

theorem ok_refresh : (l.refresh id).1.Ok := by
  refine ⟨ok.sequence_nonneg, ok.mark_nonneg, ok.mark_le, ?_, fun h => ok.committed h,
    fun h => ok.aborted h, ?_, fun h => ok.ended h⟩
  · intro other s hs
    rw [active_refresh] at hs
    split at hs
    · obtain ⟨old, hold, rfl⟩ := Option.map_eq_some_iff.mp hs
      have := ok.active hold
      exact ⟨this.1, this.2.1, ok.sequence_nonneg, Int.le_refl _⟩
    · exact ok.active hs
  · intro other s hs
    rw [active_refresh] at hs
    split at hs
    · obtain ⟨old, hold, _⟩ := Option.map_eq_some_iff.mp hs
      exact ok.running hold
    · exact ok.running hs

end Refresh

/-! ### Commit and abort -/

section Ending

variable {l : Ledger} (ok : l.Ok) {id snapshot : Int} (running : l.active[id]? = some snapshot)
include ok running

theorem committedBy_commit (other bound : Int) : (l.commit id).1.committedBy other bound =
    if other = id then decide (l.sequence + 1 ≤ bound) else l.committedBy other bound := by
  have hpos := (ok.active running).1
  rw [Bool.eq_iff_iff, committedBy_iff]
  simp only [commit, get_insert, get_erase]
  by_cases heq : other = id
  · simp [heq, hpos]
  · simp only [heq, if_false]
    rw [committedBy_iff]

theorem ok_commit : (l.commit id).1.Ok := by
  have hseq := ok.sequence_nonneg
  have hid := ok.active running
  have hrun := ok.running running
  refine ⟨?_, ok.mark_nonneg, ok.mark_le, ?_, ?_, fun h => ok.aborted h, ?_, ?_⟩
  · show 0 ≤ l.sequence + 1
    omega
  · intro other s hs
    rw [commit, get_erase] at hs
    split at hs
    · cases hs
    · have := ok.active hs
      show 0 < other ∧ other ≤ l.lastId ∧ 0 ≤ s ∧ s ≤ l.sequence + 1
      omega
  · intro other c hc
    rw [commit, get_insert] at hc
    show 0 < other ∧ other ≤ l.lastId ∧ 0 < c ∧ c ≤ l.sequence + 1
    split at hc
    · cases hc
      omega
    · have := ok.committed hc
      omega
  · intro other s hs
    rw [commit, get_erase] at hs
    rw [commit, get_insert]
    split at hs
    · cases hs
    · rename_i hne
      rw [if_neg hne]
      exact ok.running hs
  · intro other c hc
    rw [commit, get_insert] at hc
    split at hc
    · rename_i heq
      rw [heq]
      exact hrun.2
    · exact ok.ended hc

theorem grows_commit : Grows l (l.commit id).1 := by
  refine ⟨Int.le_refl _, ?_, ?_, ?_⟩
  · show l.sequence ≤ l.sequence + 1
    omega
  · have hle := horizon_le_sequence l
    rw [le_horizon_iff]
    refine ⟨?_, fun {other s} hs => ?_⟩
    · show l.horizon ≤ l.sequence + 1
      omega
    · rw [commit, get_erase] at hs
      split at hs
      · cases hs
      · exact horizon_le_snapshot hs
  · intro other b _ hb
    rw [committedBy_commit ok running]
    split
    · rename_i heq
      -- It was running, so nothing said before that it had committed.
      rw [heq, not_committedBy (not_isCommitted_of_active ok running)] at hb
      cases hb
    · exact hb

theorem committedBy_abort (other bound : Int) :
    (l.abort id).committedBy other bound = l.committedBy other bound := by
  have hrun := ok.running running
  rw [Bool.eq_iff_iff, committedBy_iff, committedBy_iff]
  simp only [abort, get_insert, get_erase]
  by_cases heq : other = id
  · simp [heq, hrun.1, running]
  · simp [heq]

theorem ok_abort : (l.abort id).Ok := by
  have hid := ok.active running
  have hrun := ok.running running
  refine ⟨ok.sequence_nonneg, ok.mark_nonneg, ok.mark_le, ?_, fun h => ok.committed h, ?_, ?_, ?_⟩
  · intro other s hs
    rw [abort, get_erase] at hs
    split at hs
    · cases hs
    · exact ok.active hs
  · intro other c hc
    rw [abort, get_insert] at hc
    split at hc
    · rename_i heq
      rw [heq]
      exact ⟨hid.1, hid.2.1⟩
    · exact ok.aborted hc
  · intro other s hs
    rw [abort, get_erase] at hs
    rw [abort, get_insert]
    split at hs
    · cases hs
    · rename_i hne
      rw [if_neg hne]
      exact ok.running hs
  · intro other c hc
    rw [abort, get_insert]
    split
    · rename_i heq
      rw [heq] at hc
      change l.committed[id]? = some c at hc
      rw [hrun.1] at hc
      cases hc
    · exact ok.ended hc

theorem grows_abort : Grows l (l.abort id) := by
  refine ⟨Int.le_refl _, Int.le_refl _, ?_, fun _ h => by
    rw [committedBy_abort ok running]; exact h⟩
  rw [le_horizon_iff]
  refine ⟨horizon_le_sequence l, fun {other s} hs => ?_⟩
  rw [abort, get_erase] at hs
  split at hs
  · cases hs
  · exact horizon_le_snapshot hs

end Ending

/-! ### Forgetting -/

section Prune

variable {l : Ledger}

theorem committed_prune (other : Int) : l.prune.1.committed[other]? =
    l.committed[other]?.filter fun c => !(decide (c ≤ l.horizon)) := by
  rw [prune, Std.ExtTreeMap.getElem?_filter']

theorem aborted_prune (other : Int) : l.prune.1.aborted[other]? =
    l.aborted[other]?.filter fun c => !(decide (c < l.horizon)) := by
  rw [prune, Std.ExtTreeMap.getElem?_filter']

theorem prunedMark_prune_le_iff {b : Int} : l.prune.1.prunedMark ≤ b ↔
    l.prunedMark ≤ b ∧ ∀ {id c : Int}, l.committed[id]? = some c → c ≤ l.horizon → id ≤ b := by
  rw [prune, foldl_max_le]
  apply and_congr_right
  intro _
  constructor
  · intro h id c hc hle
    refine h id (List.mem_map.mpr ⟨(id, c), ?_, rfl⟩)
    rw [Std.ExtTreeMap.mem_toList_iff_getElem?_eq_some, Std.ExtTreeMap.getElem?_filter', hc]
    simpa using hle
  · intro h x hx
    obtain ⟨⟨id, c⟩, hmem, rfl⟩ := List.mem_map.mp hx
    rw [Std.ExtTreeMap.mem_toList_iff_getElem?_eq_some, Std.ExtTreeMap.getElem?_filter',
      Option.filter_eq_some_iff] at hmem
    exact h hmem.1 (by simpa using hmem.2)

theorem horizon_prune : l.prune.1.horizon = l.horizon := rfl

/-- What is left is not forgotten either, as long as the horizon stays. -/
theorem prune_prune (l : Ledger) : l.prune.1.prune = (l.prune.1, 0) := by
  have hcommitted : l.prune.1.committed.filter (fun _ c => c ≤ l.horizon) = ∅ :=
    filter_not_filter _ _
  have haborted : l.prune.1.aborted.filter (fun _ c => c < l.horizon) = ∅ :=
    filter_not_filter _ _
  have hcommitted' : l.prune.1.committed.filter (fun _ c => !decide (c ≤ l.horizon)) =
      l.prune.1.committed := filter_filter _ _
  have haborted' : l.prune.1.aborted.filter (fun _ c => !decide (c < l.horizon)) =
      l.prune.1.aborted := filter_filter _ _
  rw [prune, horizon_prune, hcommitted, haborted, hcommitted', haborted']
  rfl

variable (ok : l.Ok)
include ok

theorem ok_prune : l.prune.1.Ok := by
  have hmark := prunedMark_prune_le_iff.mp (Int.le_refl l.prune.1.prunedMark)
  refine ⟨ok.sequence_nonneg, Int.le_trans ok.mark_nonneg hmark.1, ?_, fun h => ok.active h, ?_, ?_,
    ?_, ?_⟩
  · exact prunedMark_prune_le_iff.mpr ⟨ok.mark_le, fun hc _ => (ok.committed hc).2.1⟩
  · intro id c hc
    rw [committed_prune, Option.filter_eq_some_iff] at hc
    exact ok.committed hc.1
  · intro id c hc
    rw [aborted_prune, Option.filter_eq_some_iff] at hc
    exact ok.aborted hc.1
  · intro id s hs
    obtain ⟨hc, hb⟩ := ok.running (show l.active[id]? = some s from hs)
    rw [committed_prune, aborted_prune, hc, hb]
    exact ⟨rfl, rfl⟩
  · intro id c hc
    rw [committed_prune, Option.filter_eq_some_iff] at hc
    rw [aborted_prune, ok.ended hc.1]
    rfl

/-- For a transaction that runs or committed, forgetting makes no difference to anybody. -/
theorem committedBy_prune {other bound : Int} (hbound : l.horizon ≤ bound)
    (known : (∃ s, l.active[other]? = some s) ∨ l.isCommitted other = true) :
    l.prune.1.committedBy other bound = l.committedBy other bound := by
  have hnonneg := horizon_nonneg ok
  have hmark := prunedMark_prune_le_iff.mp (Int.le_refl l.prune.1.prunedMark)
  rcases known with ⟨s, hs⟩ | hcommitted
  · have hold := not_isCommitted_of_active ok hs
    have hnew := not_isCommitted_of_active (ok_prune ok) (show l.prune.1.active[other]? = some s from hs)
    rw [not_committedBy hold, not_committedBy hnew]
  · have hbefore := (isCommitted_iff ok).mp hcommitted
    rw [committedBy_iff] at hbefore
    rw [Bool.eq_iff_iff, committedBy_iff, committedBy_iff, committed_prune, aborted_prune]
    obtain ⟨hpos, ⟨c, hc, _⟩ | ⟨hnone, hle, ha, hb, _⟩⟩ := hbefore
    · have ha : l.active[other]? = none := by
        by_contra hne
        obtain ⟨s, hs⟩ := Option.ne_none_iff_exists'.mp hne
        rw [(ok.running hs).1] at hc
        cases hc
      have ha' : l.prune.1.active[other]? = none := ha
      rw [hc, ok.ended hc, ha']
      by_cases hold : c ≤ l.horizon
      · have hid := hmark.2 hc hold
        have hb : c ≤ bound := by omega
        have h0 : 0 ≤ bound := by omega
        simp [hold, hid, hb, h0]
      · have hlt : l.horizon < c := by omega
        simp [hlt]
    · have hle' := Int.le_trans hle hmark.1
      have ha' : l.prune.1.active[other]? = none := ha
      rw [hnone, hb, ha', ha]
      simp [hle, hle']

theorem grows_prune : Grows l l.prune.1 := by
  refine ⟨Int.le_refl _, Int.le_refl _, Int.le_refl _, ?_⟩
  intro id b hb h
  have hmark := prunedMark_prune_le_iff.mp (Int.le_refl l.prune.1.prunedMark)
  rw [committedBy_iff] at h ⊢
  rw [committed_prune, aborted_prune]
  obtain ⟨hpos, ⟨c, hc, hle⟩ | ⟨hnone, hle, ha, hab, _⟩⟩ := h
  · have ha : l.prune.1.active[id]? = none := by
      by_contra hne
      obtain ⟨s, hs⟩ := Option.ne_none_iff_exists'.mp hne
      rw [(ok.running (show l.active[id]? = some s from hs)).1] at hc
      cases hc
    rw [hc, ok.ended hc, ha]
    by_cases hold : c ≤ l.horizon
    · have hid := hmark.2 hc hold
      simp [hpos, hold, hid, hb]
    · have hlt : l.horizon < c := by omega
      simp [hpos, hlt, hle]
  · have ha' : l.prune.1.active[id]? = none := ha
    have hle' := Int.le_trans hle hmark.1
    rw [hnone, hab, ha']
    simp [hpos, hle', hb]

end Prune

end Ledger
end SnapshotStore
