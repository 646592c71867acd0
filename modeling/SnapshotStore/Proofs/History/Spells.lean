import Mathlib
import SnapshotStore.Proofs.History.Chronicle
import SnapshotStore.Proofs.Table.Ending

/-!
# Chains and deeds

The versions of a chain, and the mark on the newest one, are the deeds to the row, the last one first
(`Chain.Spells`). Reclamation drops versions that no reader reaches and rows that everybody sees as
deleted, so a chain need only show the deeds as far as somebody reads (`Chain.Shows`). Writes put
deeds on, undoing them takes the same deeds off again.
-/

namespace SnapshotStore

namespace Write

/-- The write created a version. -/
def creates : Write → Bool
  | .created _ _ _ => true
  | .marked _ _ | .bound _ _ _ | .outdated _ _ _ => false

end Write

/-- A write to a chain, as the log of its writer and as history remember it. -/
structure LogEntry.Matches (entry : LogEntry) (deed : Deed) : Prop where
  statement : entry.statement = deed.statement
  creates : entry.write.creates = deed.record?.isSome

theorem Version.eq_of_mark_eq {v w : Version} {a b : Stamp} (hv : v.isMarked = false)
    (hw : w.isMarked = false) (h : v.mark a = w.mark b) : v = w := by
  rw [Version.isMarked_eq_false] at hv hw
  have hid : (v.mark a).id = (w.mark b).id := by rw [h]
  have hrecord : (v.mark a).record = (w.mark b).record := by rw [h]
  have hcreated : (v.mark a).created = (w.mark b).created := by rw [h]
  rw [Version.id_mark, Version.id_mark] at hid
  rw [Version.record_mark, Version.record_mark] at hrecord
  rw [Version.created_mark, Version.created_mark] at hcreated
  obtain ⟨vid, vrecord, vcreated, vdeletion⟩ := v
  obtain ⟨wid, wrecord, wcreated, wdeletion⟩ := w
  simp only at hid hrecord hcreated hv hw
  rw [hid, hrecord, hcreated, hv, hw]

namespace Chain

/-! ## 1. Full chains -/

/-- The chain is what these deeds have made, the last one first. -/
def Spells : List Deed → Chain → Prop
  | [], chain => chain = []
  | deed :: deeds, chain =>
    match deed.record? with
    | some record =>
      ∃ v older, chain = v :: older ∧ v.record = record ∧
        v.created = .of deed.transaction deed.statement ∧ v.isMarked = false ∧ Spells deeds older
    | none =>
      ∃ v older, chain = v.mark (.of deed.transaction deed.statement) :: older ∧
        v.isMarked = false ∧ 0 < deed.statement ∧ Spells deeds (v :: older)

variable {l l' : Ledger} {deed : Deed} {deeds : List Deed} {chain older : Chain} {v : Version}

theorem spells_record {record : Record} (h : deed.record? = some record) :
    Spells (deed :: deeds) chain ↔ ∃ v older, chain = v :: older ∧ v.record = record ∧
      v.created = .of deed.transaction deed.statement ∧ v.isMarked = false ∧
        Spells deeds older := by
  rw [Spells, h]

theorem spells_deletion (h : deed.record? = none) :
    Spells (deed :: deeds) chain ↔ ∃ v older,
      chain = v.mark (.of deed.transaction deed.statement) :: older ∧ v.isMarked = false ∧
        0 < deed.statement ∧ Spells deeds (v :: older) := by
  rw [Spells, h]

/-- A row with deeds has versions. -/
theorem Spells.ne_nil (h : Spells (deed :: deeds) chain) : chain ≠ [] := by
  cases hrecord : deed.record? with
  | some record =>
    obtain ⟨_, _, rfl, _⟩ := (spells_record hrecord).mp h
    exact List.cons_ne_nil _ _
  | none =>
    obtain ⟨_, _, rfl, _⟩ := (spells_deletion hrecord).mp h
    exact List.cons_ne_nil _ _

theorem Spells.eq_nil (h : Spells deeds []) : deeds = [] := by
  cases deeds with
  | nil => rfl
  | cons deed deeds => exact absurd rfl h.ne_nil

/-- The last deed shows on the newest version. -/
theorem Spells.isMarked (h : Spells (deed :: deeds) (v :: older)) :
    v.isMarked = deed.record?.isNone := by
  cases hrecord : deed.record? with
  | some record =>
    obtain ⟨_, _, heq, _, _, hmarked, _⟩ := (spells_record hrecord).mp h
    rw [(List.cons.inj heq).1, hmarked]
    rfl
  | none =>
    obtain ⟨_, _, heq, _, hpos, _⟩ := (spells_deletion hrecord).mp h
    rw [(List.cons.inj heq).1, Version.isMarked_mark hpos]
    rfl

/-- The newest version may be replaced by its copy. -/
theorem Spells.copy (h : Spells deeds (v :: older)) (hv : v.isMarked = false) :
    Spells deeds (v.copy :: older) := by
  cases deeds with
  | nil => cases h
  | cons deed deeds =>
    cases hrecord : deed.record? with
    | some record =>
      obtain ⟨w, rest, heq, hw, hcreated, hmarked, hrest⟩ := (spells_record hrecord).mp h
      obtain ⟨rfl, rfl⟩ := List.cons.inj heq
      exact (spells_record hrecord).mpr ⟨v.copy, older, rfl, hw, hcreated, hmarked, hrest⟩
    | none =>
      rw [h.isMarked, hrecord] at hv
      cases hv

/-! ## 2. Chains as far as they are read -/

/-- Everybody sees that the last deed has deleted the row. -/
def Gone (l : Ledger) (deeds : List Deed) : Prop :=
  ∃ deed earlier, deeds = deed :: earlier ∧ deed.record? = none ∧
    l.committedBy deed.transaction l.horizon = true

/-- The chain is what these deeds have made, but for versions out of reach. -/
def Shows (l : Ledger) (deeds : List Deed) (chain : Chain) : Prop :=
  ∃ dropped, Spells deeds (chain ++ dropped) ∧
    (dropped = [] ∨ (∃ v ∈ chain, l.committedBy v.created.transaction l.horizon = true) ∨
      chain = [] ∧ Gone l deeds)

theorem shows_nil (l : Ledger) : Shows l [] [] := ⟨[], rfl, Or.inl rfl⟩

theorem Shows.eq_nil (h : Shows l [] chain) : chain = [] := by
  obtain ⟨dropped, hspells, _⟩ := h
  exact (List.append_eq_nil_iff.mp hspells).1

/-- What nobody reaches, nobody reaches later. -/
theorem Shows.grows (h : Shows l deeds chain) (grows : Ledger.Grows l l') (lok : l.Ok) :
    Shows l' deeds chain := by
  obtain ⟨dropped, hspells, hdropped⟩ := h
  refine ⟨dropped, hspells, hdropped.imp_right (Or.imp ?_ (And.imp_right ?_))⟩
  · rintro ⟨v, hv, hsettled⟩
    exact ⟨v, hv, grows.settled lok hsettled⟩
  · rintro ⟨deed, earlier, heq, hrecord, hsettled⟩
    exact ⟨deed, earlier, heq, hrecord, grows.settled lok hsettled⟩

/-- The newest version shows the last deed. -/
theorem Shows.newest (h : Shows l deeds (v :: older)) : ∃ deed earlier, deeds = deed :: earlier ∧
    v.isMarked = deed.record?.isNone := by
  obtain ⟨dropped, hspells, _⟩ := h
  cases deeds with
  | nil => cases hspells
  | cons deed earlier => exact ⟨deed, earlier, rfl, hspells.isMarked⟩

/-- A version goes on top. -/
theorem Shows.record (h : Shows l deeds chain) (hnew : chain = [] → deeds = []) {record : Record}
    (hrecord : deed.record? = some record) (hv : v.record = record)
    (hcreated : v.created = .of deed.transaction deed.statement) (hmarked : v.isMarked = false) :
    Shows l (deed :: deeds) (v :: chain) := by
  obtain ⟨dropped, hspells, hdropped⟩ := h
  refine ⟨dropped, (spells_record hrecord).mpr
    ⟨v, chain ++ dropped, rfl, hv, hcreated, hmarked, hspells⟩, ?_⟩
  rcases hdropped with rfl | ⟨w, hw, hsettled⟩ | ⟨hnil, _, _, heq, _⟩
  · exact Or.inl rfl
  · exact Or.inr (Or.inl ⟨w, List.mem_cons_of_mem _ hw, hsettled⟩)
  · rw [hnew hnil] at heq
    cases heq

/-- The newest version is marked. -/
theorem Shows.deletion (h : Shows l deeds (v :: older)) (hrecord : deed.record? = none)
    (hmarked : v.isMarked = false) (hpos : 0 < deed.statement) :
    Shows l (deed :: deeds) (v.mark (.of deed.transaction deed.statement) :: older) := by
  obtain ⟨dropped, hspells, hdropped⟩ := h
  refine ⟨dropped, (spells_deletion hrecord).mpr ⟨v, older ++ dropped, rfl, hmarked, hpos, hspells⟩,
    ?_⟩
  rcases hdropped with rfl | ⟨w, hw, hsettled⟩ | ⟨hnil, _⟩
  · exact Or.inl rfl
  · refine Or.inr (Or.inl ?_)
    rcases List.mem_cons.mp hw with rfl | hw
    · exact ⟨_, List.mem_cons_self, by rw [Version.created_mark]; exact hsettled⟩
    · exact ⟨w, List.mem_cons_of_mem _ hw, hsettled⟩
  · cases hnil

/-- A chain that everybody reads the newest version of may be cut behind it. -/
theorem Shows.truncate (h : Shows l deeds (v :: older)) (hmarked : v.isMarked = false)
    (hsettled : l.committedBy v.created.transaction l.horizon = true) : Shows l deeds [v.copy] := by
  obtain ⟨dropped, hspells, _⟩ := h
  exact ⟨older ++ dropped, hspells.copy hmarked,
    Or.inr (Or.inl ⟨v.copy, List.mem_cons_self, hsettled⟩)⟩

/-- A row that everybody sees as deleted may go. -/
theorem Shows.purge (h : Shows l deeds chain) (gone : Gone l deeds) : Shows l deeds [] := by
  obtain ⟨dropped, hspells, _⟩ := h
  exact ⟨chain ++ dropped, hspells, Or.inr (Or.inr ⟨rfl, gone⟩)⟩

/-! ## 3. Undoing -/

/-- Undoing the last write takes the last deed off. -/
theorem Shows.undo {id : Int} {entry : LogEntry} {log : List LogEntry} (hpos : 0 < id)
    (hfits : id < 2 ^ 40) (running : l.committedBy id l.horizon = false)
    (layered : Layered l id (entry :: log) chain) (tidy : Tidy chain)
    (hmatches : entry.Matches deed) (h : Shows l (deed :: deeds) chain) :
    Shows l deeds (chain.undo id entry.write) := by
  obtain ⟨dropped, hspells, hdropped⟩ := h
  obtain ⟨s, table, write⟩ := entry
  cases write with
  | created row version isNewRow =>
    obtain ⟨v, older, rfl, hid, hcreated, hnew, _⟩ := layered_created.mp layered
    obtain ⟨record, hrecord⟩ := Option.isSome_iff_exists.mp hmatches.creates.symm
    obtain ⟨w, rest, heq, _, _, _, hrest⟩ := (spells_record hrecord).mp hspells
    obtain ⟨_, rfl⟩ := List.cons.inj heq
    have hbelow : dropped = [] ∨
        ∃ u ∈ older, l.committedBy u.created.transaction l.horizon = true := by
      rcases hdropped with hnil | ⟨u, hu, hsettled⟩ | ⟨hnil, _⟩
      · exact Or.inl hnil
      · rcases List.mem_cons.mp hu with rfl | hu
        · rw [hcreated] at hsettled
          exact absurd (hsettled.symm.trans running) (by decide)
        · exact Or.inr ⟨u, hu, hsettled⟩
      · cases hnil
    rw [undo_created hid hnew]
    exact ⟨dropped, hrest, hbelow.imp_right Or.inl⟩
  | marked row version =>
    obtain ⟨v, older, rfl, hid, hmarked, _, _⟩ := layered_marked.mp layered
    have hrecord : deed.record? = none := by
      rw [← Option.isSome_eq_false_iff.trans Option.isNone_iff_eq_none]
      exact hmatches.creates.symm
    obtain ⟨w, rest, heq, hw, _, hrest⟩ := (spells_deletion hrecord).mp hspells
    obtain ⟨hmark, rfl⟩ := List.cons.inj heq
    have hsame : v = w := Version.eq_of_mark_eq hmarked hw hmark
    subst hsame
    rw [undo_marked tidy hid, Version.unmark_mark_of_lt hmarked hpos hfits]
    refine ⟨dropped, hrest, ?_⟩
    rcases hdropped with hnil | ⟨u, hu, hsettled⟩ | ⟨hnil, _⟩
    · exact Or.inl hnil
    · refine Or.inr (Or.inl ?_)
      rcases List.mem_cons.mp hu with rfl | hu
      · rw [Version.created_mark] at hsettled
        exact ⟨v, List.mem_cons_self, hsettled⟩
      · exact ⟨u, List.mem_cons_of_mem _ hu, hsettled⟩
    · cases hnil
  | bound => exact layered.elim
  | outdated => exact layered.elim

/-- Undoing the last writes takes as many deeds off. -/
theorem Shows.undoLog {id : Int} (hpos : 0 < id) (hfits : id < 2 ^ 40)
    (running : l.committedBy id l.horizon = false) {undoing log : List LogEntry}
    {undone : List Deed} (layered : Layered l id (undoing ++ log) chain) (tidy : Tidy chain)
    (hmatches : List.Forall₂ LogEntry.Matches undoing undone) (h : Shows l (undone ++ deeds) chain) :
    Shows l deeds (chain.undoLog id undoing) := by
  induction hmatches generalizing chain with
  | nil => exact h
  | @cons entry deed undoing undone hmatch _ ih =>
    exact ih (layered.undo tidy) (tidy.undo id entry.write)
      (h.undo hpos hfits running layered tidy hmatch)

end Chain

namespace Table

/-- Undoing the writes of a log changes a chain as its own part of the log says. -/
theorem chainOf_undoLog (table : Table) (tid : TableId) (id : Int) (log : List LogEntry)
    (row : RowHandle) : (table.undoLog tid id log).chainOf row =
      Chain.undoLog id (rowLog tid row log) (table.chainOf row) := by
  induction log generalizing table with
  | nil => rfl
  | cons entry log ih =>
    have hstep : table.undoLog tid id (entry :: log) =
        (if entry.table = tid then table.undo id entry.write else table).undoLog tid id log := rfl
    rw [hstep, ih, rowLog_cons, LogEntry.touches]
    by_cases htable : entry.table = tid
    · rw [if_pos htable, chainOf_undo, decide_eq_true htable, Bool.true_and]
      by_cases hrow : entry.write.row? = some row
      · rw [if_pos hrow, if_pos (decide_eq_true hrow)]
        rfl
      · rw [if_neg hrow, if_neg (by rw [decide_eq_false hrow]; exact Bool.false_ne_true)]
    · rw [if_neg htable, decide_eq_false htable, Bool.false_and, if_neg Bool.false_ne_true]

end Table
end SnapshotStore
