import Mathlib
import SnapshotStore.Proofs.Store.Move

/-!
# What history says

A chronicle is what a reader of the history of a store knows of it: the writes of each transaction,
which of them have been taken back, who has committed, in which order and with which sequence. It is
built from the events alone (`Chronicle.of`) and holds no version, no mark and no ledger, so it is what
the reads of the store are measured against: a reader is to find the records that come of applying, to
the empty table, the writes of everybody who committed under its snapshot, and its own
(`Chronicle.rows`).
-/

namespace SnapshotStore

/-- A write as history knows it: the row was given a record, or it was deleted. -/
structure Deed where
  transaction : Int
  statement : Nat
  table : TableId
  row : RowHandle
  record? : Option Record
deriving DecidableEq

/-- A transaction that has committed, and what it did, the last deed first. -/
structure Commit where
  transaction : Int
  sequence : Int
  deeds : List Deed
deriving DecidableEq

/-- What a reader of the history of a store knows. -/
structure Chronicle where
  /-- The last sequence drawn: beginnings and commits draw one each. -/
  sequence : Int := 0
  /-- The statement in which each transaction is, or was last. -/
  statement : Int → Nat := fun _ => 0
  /-- The deeds of each running transaction that have not been taken back, the last one first. -/
  pending : Int → List Deed := fun _ => []
  /-- The last commit first. -/
  commits : List Commit := []
  aborted : List Int := []

namespace Deed

/-- The deed was done to that row of that table. -/
def on (table : TableId) (row : RowHandle) (deed : Deed) : Bool :=
  decide (deed.table = table) && decide (deed.row = row)

theorem on_iff {table : TableId} {row : RowHandle} {deed : Deed} :
    deed.on table row = true ↔ deed.table = table ∧ deed.row = row := by
  simp [on]

/-- Does the deed to the rows of its table. -/
def apply (deed : Deed) (rows : Std.ExtTreeMap RowHandle Record) : Std.ExtTreeMap RowHandle Record :=
  match deed.record? with
  | some record => rows.insert deed.row record
  | none => rows.erase deed.row

/-- The rows of a table after these deeds, of which the last one is the first. -/
def rows (table : TableId) (deeds : List Deed) : Std.ExtTreeMap RowHandle Record :=
  (deeds.filter fun deed => decide (deed.table = table)).foldr apply ∅

/-- The last deed to a row decides. -/
theorem get_rows (table : TableId) (deeds : List Deed) (row : RowHandle) :
    (rows table deeds)[row]? = (deeds.find? (·.on table row)).bind (·.record?) := by
  -- A deed to another table leaves all rows, and one to another row leaves this one.
  induction deeds with
  | nil => simp [rows]
  | cons deed deeds ih =>
    rw [List.find?_cons]
    by_cases htable : deed.table = table
    · have hrows : rows table (deed :: deeds) = deed.apply (rows table deeds) := by
        simp [rows, htable]
      rw [hrows, apply]
      by_cases hrow : deed.row = row
      · rw [on, decide_eq_true htable, decide_eq_true hrow]
        cases hrecord : deed.record? with
        | none =>
          simp only [Bool.and_self, Option.bind_some, hrecord]
          rw [Maps.get_erase, if_pos hrow.symm]
        | some record =>
          simp only [Bool.and_self, Option.bind_some, hrecord]
          rw [Maps.get_insert, if_pos hrow.symm]
      · rw [on, decide_eq_false hrow, Bool.and_false, ← ih]
        cases deed.record? with
        | none =>
          dsimp only
          rw [Maps.get_erase, if_neg (fun h => hrow h.symm)]
        | some record =>
          dsimp only
          rw [Maps.get_insert, if_neg (fun h => hrow h.symm)]
    · have hrows : rows table (deed :: deeds) = rows table deeds := by
        simp [rows, htable]
      rw [hrows, ih, on, decide_eq_false htable, Bool.false_and]

end Deed

namespace Chronicle

/-! ## 1. From events -/

/-- Goes on with the next event. -/
def tell (c : Chronicle) : Event → Chronicle
  | .began id =>
    { c with sequence := c.sequence + 1, statement := Function.update c.statement id 1 }
  | .statement id =>
    { c with
      statement := Function.update c.statement id
        (min (c.statement id + 1) Transaction.lastStatement) }
  | .wrote id table row record? =>
    { c with
      pending := Function.update c.pending id
        (⟨id, c.statement id, table, row, record?⟩ :: c.pending id) }
  | .committed id =>
    { c with
      sequence := c.sequence + 1
      commits := ⟨id, c.sequence + 1, c.pending id⟩ :: c.commits
      pending := Function.update c.pending id [] }
  | .undone id whole =>
    { c with
      pending := Function.update c.pending id
        (if whole then []
        else (c.pending id).filter fun deed => decide (deed.statement ≠ c.statement id)) }
  | .aborted id => { c with aborted := id :: c.aborted }
  | .quiet _ => c

/-- The chronicle of a history. -/
def of (history : List Event) : Chronicle := history.foldl tell {}

theorem of_append (history events : List Event) :
    of (history ++ events) = events.foldl tell (of history) := List.foldl_append

/-- Nothing quiet is worth telling. -/
theorem foldl_tell_loud (c : Chronicle) (events : List Event) :
    (events.filter (!·.isQuiet)).foldl tell c = events.foldl tell c := by
  induction events generalizing c with
  | nil => rfl
  | cons event events ih =>
    rw [List.filter_cons]
    cases event with
    | quiet => exact ih c
    | began | statement | wrote | committed | undone | aborted => exact ih _

/-! ## 2. What readers are to find -/

/-- The transaction committed with that sequence. -/
def CommittedAt (c : Chronicle) (id sequence : Int) : Prop :=
  ∃ commit ∈ c.commits, commit.transaction = id ∧ commit.sequence = sequence

/-- The deeds of those who committed under a snapshot, the last one first. -/
def deedsUnder (c : Chronicle) (snapshot : Int) : List Deed :=
  (c.commits.filter fun commit => decide (commit.sequence ≤ snapshot)).flatMap (·.deeds)

/-- The deeds of a running transaction that it sees itself: all of them, or those of its earlier
statements. -/
def ownDeeds (c : Chronicle) (id : Int) (ownStatement : Bool) : List Deed :=
  (c.pending id).filter fun deed => ownStatement || decide (deed.statement ≠ c.statement id)

/-- The rows of a table as a transaction is to find them under a snapshot: what comes of applying the
deeds of those who committed under it, in the order of their commits, and then its own. -/
def rows (c : Chronicle) (table : TableId) (id snapshot : Int) (ownStatement : Bool) :
    Std.ExtTreeMap RowHandle Record :=
  Deed.rows table (c.ownDeeds id ownStatement ++ c.deedsUnder snapshot)

/-! ## 3. The deeds to a row -/

/-- The deeds of a running transaction to a row, the last one first. -/
def writes (c : Chronicle) (id : Int) (table : TableId) (row : RowHandle) : List Deed :=
  (c.pending id).filter (·.on table row)

/-- The committed deeds to a row, the last one first. -/
def settled (c : Chronicle) (table : TableId) (row : RowHandle) : List Deed :=
  (c.commits.flatMap (·.deeds)).filter (·.on table row)

/-- What history itself makes sure of. -/
structure Sound (c : Chronicle) : Prop where
  own : ∀ {id : Int} {deed : Deed}, deed ∈ c.pending id → deed.transaction = id
  committed : ∀ {commit : Commit} {deed : Deed}, commit ∈ c.commits → deed ∈ commit.deeds →
    deed.transaction = commit.transaction
  drawn : ∀ {commit : Commit}, commit ∈ c.commits → commit.sequence ≤ c.sequence
  order : c.commits.Pairwise fun later earlier => earlier.sequence < later.sequence

theorem sound_new : Sound {} where
  own h := by cases h
  committed h := by cases h
  drawn h := by cases h
  order := List.Pairwise.nil

theorem Sound.tell {c : Chronicle} (sound : c.Sound) (event : Event) : (c.tell event).Sound := by
  have hown : ∀ {id : Int} {deeds : List Deed}, (∀ deed ∈ deeds, deed.transaction = id) →
      ∀ {other : Int} {deed : Deed}, deed ∈ Function.update c.pending id deeds other →
        deed.transaction = other := by
    intro id deeds hdeeds other deed h
    rw [Function.update_apply] at h
    split at h
    · rename_i heq
      rw [hdeeds deed h, heq]
    · exact sound.own h
  cases event with
  | began id =>
    exact ⟨sound.own, sound.committed, fun h => Int.le_add_one (sound.drawn h),
      sound.order⟩
  | statement id => exact ⟨sound.own, sound.committed, sound.drawn, sound.order⟩
  | wrote id table row record? =>
    refine ⟨hown fun deed h => ?_, sound.committed, sound.drawn, sound.order⟩
    rcases List.mem_cons.mp h with rfl | h
    · rfl
    · exact sound.own h
  | committed id =>
    refine ⟨hown fun deed h => (by cases h), fun {commit deed} hcommit hdeed => ?_,
      fun {commit} hcommit => ?_, ?_⟩
    · rcases List.mem_cons.mp hcommit with rfl | hcommit
      · exact sound.own hdeed
      · exact sound.committed hcommit hdeed
    · rcases List.mem_cons.mp hcommit with rfl | hcommit
      · exact Int.le_refl _
      · exact Int.le_add_one (sound.drawn hcommit)
    · refine List.pairwise_cons.mpr ⟨fun commit hcommit => ?_, sound.order⟩
      exact Int.lt_add_one_of_le (sound.drawn hcommit)
  | undone id whole =>
    refine ⟨hown fun deed h => ?_, sound.committed, sound.drawn, sound.order⟩
    cases whole with
    | true => cases h
    | false => exact sound.own (List.mem_of_mem_filter h)
  | aborted id => exact ⟨sound.own, sound.committed, sound.drawn, sound.order⟩
  | quiet => exact sound

theorem Sound.foldl_tell {c : Chronicle} (sound : c.Sound) (events : List Event) :
    (events.foldl Chronicle.tell c).Sound := by
  induction events generalizing c with
  | nil => exact sound
  | cons event events ih => exact ih (sound.tell event)

theorem sound_of (history : List Event) : (of history).Sound := sound_new.foldl_tell history

section Deeds

variable {c : Chronicle} {table : TableId} {row : RowHandle}

theorem transaction_of_mem_writes (sound : c.Sound) {id : Int} {deed : Deed}
    (h : deed ∈ c.writes id table row) : deed.transaction = id :=
  sound.own (List.mem_of_mem_filter h)

/-- A committed deed is one of a committed transaction. -/
theorem committedAt_of_mem_settled (sound : c.Sound) {deed : Deed}
    (h : deed ∈ c.settled table row) : ∃ sequence, c.CommittedAt deed.transaction sequence := by
  obtain ⟨commit, hcommit, hdeed⟩ := List.mem_flatMap.mp (List.mem_of_mem_filter h)
  exact ⟨commit.sequence, commit, hcommit, (sound.committed hcommit hdeed).symm, rfl⟩

end Deeds

end Chronicle
end SnapshotStore
