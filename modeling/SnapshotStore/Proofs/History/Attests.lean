import Mathlib
import SnapshotStore.Proofs.History.Chronicle

/-!
# The ledger and history

The ledger knows of every commit in history, by its entry or as one that is forgotten (`Ledger.Attests`).
What it answers about a transaction that has committed is what history says, for every bound that a
reader may ask with. About aborted transactions it may be wrong once it has forgotten them, which is
why they are looked up in history.
-/

namespace SnapshotStore

namespace Chronicle

variable {c : Chronicle}

theorem committedAt_committed {id other sequence : Int} :
    (c.tell (.committed id)).CommittedAt other sequence ↔
      other = id ∧ sequence = c.sequence + 1 ∨ c.CommittedAt other sequence := by
  constructor
  · rintro ⟨commit, hcommit, rfl, rfl⟩
    rcases List.mem_cons.mp hcommit with rfl | hcommit
    · exact Or.inl ⟨rfl, rfl⟩
    · exact Or.inr ⟨commit, hcommit, rfl, rfl⟩
  · rintro (⟨rfl, rfl⟩ | ⟨commit, hcommit, rfl, rfl⟩)
    · exact ⟨_, List.mem_cons_self, rfl, rfl⟩
    · exact ⟨commit, List.mem_cons_of_mem _ hcommit, rfl, rfl⟩

theorem CommittedAt.le_sequence {id sequence : Int} (h : c.CommittedAt id sequence)
    (sound : c.Sound) : sequence ≤ c.sequence := by
  obtain ⟨commit, hcommit, _, rfl⟩ := h
  exact sound.drawn hcommit

theorem mem_aborted_foldl_tell {c : Chronicle} {id : Int} (h : id ∈ c.aborted)
    (events : List Event) : id ∈ (events.foldl tell c).aborted := by
  induction events generalizing c with
  | nil => exact h
  | cons event events ih =>
    refine ih ?_
    cases event with
    | aborted => exact List.mem_cons_of_mem _ h
    | began | statement | wrote | committed | undone | quiet => exact h

/-- Who has aborted is remembered. -/
theorem mem_aborted_of {history : List Event} {id : Int} (h : Event.aborted id ∈ history) :
    id ∈ (of history).aborted := by
  obtain ⟨before, after, rfl⟩ := List.append_of_mem h
  rw [of_append, List.foldl_cons]
  exact mem_aborted_foldl_tell List.mem_cons_self after

/-- The commits stand in history, in their order. -/
theorem commits_sublist (history : List Event) :
    ((of history).commits.reverse.map fun commit => Event.committed commit.transaction).Sublist
      history := by
  induction history using List.reverseRecOn with
  | nil => exact .refl _
  | append_singleton history event ih =>
    rw [of_append]
    cases event with
    | committed id =>
      show (((_ :: (of history).commits).reverse).map _).Sublist _
      rw [List.reverse_cons, List.map_append]
      exact ih.append (.refl _)
    | began | statement | wrote | aborted | undone | quiet =>
      exact ih.trans (List.sublist_append_left _ _)

/-- Who has committed has done so in history, and the other way round. -/
theorem CommittedAt.mem {history : List Event} {id sequence : Int}
    (h : (of history).CommittedAt id sequence) : Event.committed id ∈ history := by
  obtain ⟨commit, hcommit, rfl, _⟩ := h
  exact (commits_sublist history).subset
    (List.mem_map_of_mem (f := fun commit : Commit => Event.committed commit.transaction)
      (List.mem_reverse.mpr hcommit))

/-- Of two who have committed the one with the smaller sequence did so before the other. -/
theorem CommittedAt.eq_or_before {history : List Event} {id id' sequence sequence' : Int}
    (h : (of history).CommittedAt id sequence) (h' : (of history).CommittedAt id' sequence')
    (hle : sequence' ≤ sequence) :
    id = id' ∨ [Event.committed id', .committed id].Sublist history := by
  obtain ⟨commit, hcommit, rfl, rfl⟩ := h
  obtain ⟨commit', hcommit', rfl, rfl⟩ := h'
  obtain ⟨later, earlier, hsplit⟩ := List.append_of_mem hcommit
  have horder := (sound_of history).order
  rw [hsplit] at hcommit' horder
  rcases List.mem_append.mp hcommit' with hlater | hrest
  · -- Whoever is on top of a commit has drawn a larger sequence.
    have hlt := (List.pairwise_append.mp horder).2.2 commit' hlater commit List.mem_cons_self
    exact absurd hle (Int.not_le.mpr hlt)
  · rcases List.mem_cons.mp hrest with rfl | hearlier
    · exact Or.inl rfl
    · right
      have hpair : [commit, commit'].Sublist (of history).commits := by
        rw [hsplit]
        exact ((List.singleton_sublist.mpr hearlier).cons_cons commit).trans
          (List.sublist_append_right _ _)
      exact (hpair.reverse.map _).trans (commits_sublist history)

theorem CommittedAt.foldl_tell {id sequence : Int} (h : c.CommittedAt id sequence)
    (events : List Event) : (events.foldl tell c).CommittedAt id sequence := by
  induction events generalizing c with
  | nil => exact h
  | cons event events ih =>
    refine ih ?_
    cases event with
    | committed other => exact committedAt_committed.mpr (Or.inr h)
    | began | statement | wrote | aborted | undone | quiet => exact h

theorem exists_committedAt {history : List Event} {id : Int} (h : Event.committed id ∈ history) :
    ∃ sequence, (of history).CommittedAt id sequence := by
  obtain ⟨before, after, rfl⟩ := List.append_of_mem h
  rw [of_append, List.foldl_cons]
  exact ⟨_, CommittedAt.foldl_tell (committedAt_committed.mpr (Or.inl ⟨rfl, rfl⟩)) after⟩

end Chronicle

namespace Ledger

/-- The ledger knows of the commit: it has forgotten those up to `mark` and has the others on
record. -/
def Knows (l : Ledger) (mark id sequence : Int) : Prop :=
  if sequence ≤ mark then
    l.committed[id]? = none ∧ id ≤ l.prunedMark ∧ l.aborted[id]? = none
  else l.committed[id]? = some sequence

/-- The ledger is one that history has led to. -/
structure Attests (l : Ledger) (c : Chronicle) : Prop where
  sequence : l.sequence = c.sequence
  ended : ∀ {id sequence : Int}, c.CommittedAt id sequence →
    0 < id ∧ id ≤ l.lastId ∧ 0 < sequence ∧ l.active[id]? = none
  unique : ∀ {id s s' : Int}, c.CommittedAt id s → c.CommittedAt id s' → s = s'
  knows : ∃ mark, 0 ≤ mark ∧ mark ≤ l.horizon ∧
    ∀ {id sequence : Int}, c.CommittedAt id sequence → l.Knows mark id sequence
  aborted : ∀ {id : Int}, id ∈ c.aborted →
    id ≤ l.lastId ∧ l.active[id]? = none ∧ ∀ sequence, ¬ c.CommittedAt id sequence

theorem attests_new : Attests {} {} where
  sequence := rfl
  ended h := by
    obtain ⟨_, hin, _⟩ := h
    cases hin
  unique h := by
    obtain ⟨_, hin, _⟩ := h
    cases hin
  knows := ⟨0, Int.le_refl _, horizon_nonneg ok_new, fun h => by
    obtain ⟨_, hin, _⟩ := h
    cases hin⟩
  aborted h := by cases h

namespace Attests

variable {l l' : Ledger} {c : Chronicle} {id sequence bound : Int}

/-! ## 1. What the ledger answers -/

/-- Whoever asks under a snapshot is told what history says. -/
theorem committedBy (attests : l.Attests c) (h : c.CommittedAt id sequence)
    (hbound : l.horizon ≤ bound) : l.committedBy id bound = decide (sequence ≤ bound) := by
  obtain ⟨mark, hmark, hle, hknows⟩ := attests.knows
  obtain ⟨hpos, _, _, hactive⟩ := attests.ended h
  have hknow := hknows h
  rw [Bool.eq_iff_iff, committedBy_iff, decide_eq_true_iff]
  rw [Knows] at hknow
  split at hknow
  · rename_i hforgotten
    obtain ⟨hnone, hpruned, hnot⟩ := hknow
    constructor
    · intro
      omega
    · intro
      exact ⟨hpos, Or.inr ⟨hnone, hpruned, hactive, hnot, by omega⟩⟩
  · constructor
    · rintro ⟨_, ⟨s, hs, hsle⟩ | ⟨hnone, _⟩⟩
      · rw [hknow] at hs
        cases hs
        exact hsle
      · rw [hknow] at hnone
        cases hnone
    · intro hsle
      exact ⟨hpos, Or.inl ⟨sequence, hknow, hsle⟩⟩

theorem isCommitted (attests : l.Attests c) (lok : l.Ok) (sound : c.Sound)
    (h : c.CommittedAt id sequence) : l.isCommitted id = true := by
  rw [isCommitted_iff lok, attests.committedBy h (horizon_le_sequence l), attests.sequence]
  exact decide_eq_true (h.le_sequence sound)

/-- The commit sequence is the one of history, or says that it was long ago. -/
theorem exists_commitSequence (attests : l.Attests c) : ∃ mark, 0 ≤ mark ∧
    ∀ {id sequence : Int}, c.CommittedAt id sequence →
      l.commitSequence? id = some (if sequence ≤ mark then frozen else sequence) := by
  obtain ⟨mark, hmark, hle, hknows⟩ := attests.knows
  refine ⟨mark, hmark, fun {id sequence} h => ?_⟩
  obtain ⟨hpos, _, _, hactive⟩ := attests.ended h
  have hknow := hknows h
  rw [Knows] at hknow
  rw [commitSequence?, if_neg (by rw [noTransaction]; omega)]
  split at hknow
  · rename_i hforgotten
    obtain ⟨hnone, hpruned, hnot⟩ := hknow
    rw [hnone, if_pos hforgotten]
    dsimp only
    rw [if_neg]
    simp only [Bool.or_eq_true, decide_eq_true_eq, Std.ExtTreeMap.contains_eq_isSome_getElem?,
      hactive, hnot, Option.isSome_none, Bool.false_eq_true, or_false]
    omega
  · rename_i hforgotten
    rw [hknow, if_neg hforgotten]

/-- The ledger puts commits in the order of history. -/
theorem commitSequence_le (attests : l.Attests c) {newer older s s' : Int}
    (hnewer : c.CommittedAt newer s) (holder : c.CommittedAt older s') (hle : s' ≤ s) :
    ∃ q q', l.commitSequence? newer = some q ∧ l.commitSequence? older = some q' ∧ q' ≤ q := by
  obtain ⟨mark, hmark, hsequence⟩ := attests.exists_commitSequence
  refine ⟨_, _, hsequence hnewer, hsequence holder, ?_⟩
  rw [frozen]
  split <;> split <;> omega

/-! ## 2. Going on -/

/-- Whether the ledger is one of a history depends on who has ended in it. -/
theorem congr {c' : Chronicle} (attests : l.Attests c) (hsequence : c'.sequence = c.sequence)
    (hcommits : c'.commits = c.commits) (haborted : c'.aborted = c.aborted) : l.Attests c' := by
  have hat : ∀ {id s : Int}, c'.CommittedAt id s ↔ c.CommittedAt id s := by
    intro id s
    rw [Chronicle.CommittedAt, hcommits]
    rfl
  obtain ⟨mark, hmark, hle, hknows⟩ := attests.knows
  refine ⟨attests.sequence.trans hsequence.symm, fun h => attests.ended (hat.mp h),
    fun h h' => attests.unique (hat.mp h) (hat.mp h'),
    ⟨mark, hmark, hle, fun h => hknows (hat.mp h)⟩, fun {id} h => ?_⟩
  rw [haborted] at h
  obtain ⟨hle, hnone, hnot⟩ := attests.aborted h
  exact ⟨hle, hnone, fun s hs => hnot s (hat.mp hs)⟩

variable (attests : l.Attests c) (lok : l.Ok)
include attests lok

theorem began {snapshot : Int} (h : l.begin? = some (l', id, snapshot)) :
    l'.Attests (c.tell (.began id)) := by
  have grows := grows_begin lok h
  obtain ⟨_, rfl, rfl, rfl⟩ := begin?_eq_some.mp h
  have hactive : ∀ other : Int, other ≤ l.lastId →
      (l.active.insert (l.lastId + 1) (l.sequence + 1))[other]? = l.active[other]? := by
    intro other hother
    rw [Maps.get_insert, if_neg (by omega)]
  obtain ⟨mark, hmark, hle, hknows⟩ := attests.knows
  refine ⟨congrArg (· + 1) attests.sequence, fun hc => ?_, attests.unique,
    ⟨mark, hmark, Int.le_trans hle grows.horizon_le, fun hc => ?_⟩, fun hin => ?_⟩
  · obtain ⟨hpos, hid, hs, hnone⟩ := attests.ended hc
    exact ⟨hpos, Int.le_add_one hid, hs, (hactive _ hid).trans hnone⟩
  · exact hknows hc
  · obtain ⟨hid, hnone, hnot⟩ := attests.aborted hin
    exact ⟨Int.le_add_one hid, (hactive _ hid).trans hnone, hnot⟩

omit lok in
theorem refreshed (id : Int) : (l.refresh id).1.Attests c := by
  have grows : Grows l (l.refresh id).1 := grows_refresh id
  have hactive : ∀ other : Int, l.active[other]? = none →
      (l.refresh id).1.active[other]? = none := by
    intro other hnone
    rw [active_refresh, hnone]
    split <;> rfl
  obtain ⟨mark, hmark, hle, hknows⟩ := attests.knows
  refine ⟨attests.sequence, fun hc => ?_, attests.unique,
    ⟨mark, hmark, Int.le_trans hle grows.horizon_le, fun hc => hknows hc⟩, fun hin => ?_⟩
  · obtain ⟨hpos, hid, hs, hnone⟩ := attests.ended hc
    exact ⟨hpos, hid, hs, hactive _ hnone⟩
  · obtain ⟨hid, hnone, hnot⟩ := attests.aborted hin
    exact ⟨hid, hactive _ hnone, hnot⟩

theorem committed {snapshot : Int} (running : l.active[id]? = some snapshot) :
    (l.commit id).1.Attests (c.tell (.committed id)) := by
  have grows := grows_commit lok running
  obtain ⟨hpos, hid, _, _⟩ := lok.active running
  have hne : ∀ {other s : Int}, c.CommittedAt other s → other ≠ id := by
    rintro other s hc rfl
    rw [(attests.ended hc).2.2.2] at running
    cases running
  have hactive : ∀ other : Int, other = id ∨ l.active[other]? = none →
      (l.active.erase id)[other]? = none := by
    intro other h
    rw [Maps.get_erase]
    split
    · rfl
    · exact h.resolve_left ‹_›
  obtain ⟨mark, hmark, hle, hknows⟩ := attests.knows
  have hsequence := horizon_le_sequence l
  refine ⟨congrArg (· + 1) attests.sequence, fun {other s} hc => ?_, fun {other s s'} hc hc' => ?_,
    ⟨mark, hmark, Int.le_trans hle grows.horizon_le, fun {other s} hc => ?_⟩, fun {other} hin => ?_⟩
  · rcases Chronicle.committedAt_committed.mp hc with ⟨rfl, rfl⟩ | hc
    · have hnonneg := lok.sequence_nonneg
      rw [attests.sequence] at hnonneg
      exact ⟨hpos, hid, Int.lt_add_one_of_le hnonneg, hactive _ (Or.inl rfl)⟩
    · obtain ⟨hpos', hid', hs, hnone⟩ := attests.ended hc
      exact ⟨hpos', hid', hs, hactive _ (Or.inr hnone)⟩
  · rcases Chronicle.committedAt_committed.mp hc with ⟨heq, rfl⟩ | hold
    · rcases Chronicle.committedAt_committed.mp hc' with ⟨_, rfl⟩ | hold'
      · rfl
      · exact absurd heq (hne hold')
    · rcases Chronicle.committedAt_committed.mp hc' with ⟨heq, _⟩ | hold'
      · exact absurd heq (hne hold)
      · exact attests.unique hold hold'
  · rcases Chronicle.committedAt_committed.mp hc with ⟨rfl, rfl⟩ | hc
    · rw [Knows, if_neg (by rw [← attests.sequence]; omega), ← attests.sequence]
      exact (Maps.get_insert _ _ _ _).trans (if_pos rfl)
    · have hcommitted : (l.commit id).1.committed[other]? = l.committed[other]? :=
        (Maps.get_insert _ _ _ _).trans (if_neg (hne hc))
      rw [Knows, hcommitted]
      exact hknows hc
  · obtain ⟨hid', hnone, hnot⟩ := attests.aborted hin
    refine ⟨hid', hactive _ (Or.inr hnone), fun s hc => ?_⟩
    rcases Chronicle.committedAt_committed.mp hc with ⟨rfl, _⟩ | hc
    · rw [hnone] at running
      cases running
    · exact hnot s hc

theorem abandoned {snapshot : Int} (running : l.active[id]? = some snapshot) :
    (l.abort id).Attests (c.tell (.aborted id)) := by
  have grows := grows_abort lok running
  have hactive : ∀ other : Int, other = id ∨ l.active[other]? = none →
      (l.active.erase id)[other]? = none := by
    intro other h
    rw [Maps.get_erase]
    split
    · rfl
    · exact h.resolve_left ‹_›
  have hne : ∀ {other s : Int}, c.CommittedAt other s → other ≠ id := by
    rintro other s hc rfl
    rw [(attests.ended hc).2.2.2] at running
    cases running
  obtain ⟨mark, hmark, hle, hknows⟩ := attests.knows
  refine ⟨attests.sequence, fun hc => ?_, attests.unique,
    ⟨mark, hmark, Int.le_trans hle grows.horizon_le, fun {other s} hc => ?_⟩, fun {other} hin => ?_⟩
  · obtain ⟨hpos, hid, hs, hnone⟩ := attests.ended hc
    exact ⟨hpos, hid, hs, hactive _ (Or.inr hnone)⟩
  · have haborted : (l.abort id).aborted[other]? = l.aborted[other]? :=
      (Maps.get_insert _ _ _ _).trans (if_neg (hne hc))
    rw [Knows, haborted]
    exact hknows hc
  · rcases List.mem_cons.mp hin with rfl | hin
    · exact ⟨(lok.active running).2.1, hactive _ (Or.inl rfl), fun s hc => hne hc rfl⟩
    · obtain ⟨hid, hnone, hnot⟩ := attests.aborted hin
      exact ⟨hid, hactive _ (Or.inr hnone), hnot⟩

/-- Forgetting commits moves the mark up to the horizon. -/
theorem pruned : l.prune.1.Attests c := by
  obtain ⟨mark, hmark, hle, hknows⟩ := attests.knows
  refine ⟨attests.sequence, attests.ended, attests.unique,
    ⟨l.horizon, horizon_nonneg lok, Int.le_refl _, fun {other s} hc => ?_⟩, attests.aborted⟩
  have hknow := hknows hc
  obtain ⟨hpruned, hcommits⟩ := prunedMark_prune_le_iff.mp (Int.le_refl l.prune.1.prunedMark)
  rw [Knows] at hknow ⊢
  rw [committed_prune, aborted_prune]
  by_cases hforgotten : s ≤ mark
  · rw [if_pos hforgotten] at hknow
    obtain ⟨hnone, hid, hnot⟩ := hknow
    rw [if_pos (Int.le_trans hforgotten hle), hnone, hnot]
    exact ⟨rfl, Int.le_trans hid hpruned, rfl⟩
  · rw [if_neg hforgotten] at hknow
    rw [hknow, lok.ended hknow]
    by_cases hold : s ≤ l.horizon
    · rw [if_pos hold]
      refine ⟨?_, hcommits hknow hold, rfl⟩
      simp [Option.filter, hold]
    · rw [if_neg hold]
      simp [Option.filter, hold]

end Attests
end Ledger
end SnapshotStore
