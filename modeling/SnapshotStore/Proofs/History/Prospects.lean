import Mathlib
import SnapshotStore.Proofs.History.Reads
import SnapshotStore.Proofs.Table.Ownership

/-!
# What may still come of a row

A running transaction may yet take deeds back: those of its current statement, or all of them. So what a
row is going to be is open, and a writer who wants a key has to reckon with every way in which the others
may end. History can say what these ways are. Each running transaction goes back to the beginning of some
statement and keeps what it did before, and the last deed to the row that is left decides what the row is
then (`Chronicle.Decides`).

The question who owns a key looks at two versions of a row only, the newest and the one below it. That is
enough to see every record that may still come of the row, if nobody has put two records on top of a
committed one (`Chronicle.UpdatesOnce`): the record that decides is then that of one of the two versions
(`Store.Shows.owns_of_decides`). A second update of a row by one transaction hides the committed record
from the question, and the theorem fails.
-/

namespace SnapshotStore

/-- The deed gave its row a record of that key. -/
def Deed.Gives (deed : Deed) (spec : KeySpec) (key : Bytes) : Prop :=
  ∃ record, deed.record? = some record ∧ spec.keyOf record = .ok key

theorem Deed.Gives.isSome {deed : Deed} {spec : KeySpec} {key : Bytes} (h : deed.Gives spec key) :
    deed.record?.isSome = true := by
  obtain ⟨record, hrecord, _⟩ := h
  rw [hrecord]
  rfl

namespace Chronicle

/-- The deeds of a running transaction to a row that are left when it has gone back to the beginning of
a statement. -/
def kept (c : Chronicle) (back : Int → Nat) (id : Int) (table : TableId) (row : RowHandle) :
    List Deed :=
  (c.writes id table row).filter fun deed => decide (deed.statement < back id)

/-- When every running transaction has gone back to the beginning of a statement, this is the last deed
to the row that is left. -/
inductive Decides (c : Chronicle) (back : Int → Nat) (table : TableId) (row : RowHandle) :
    Deed → Prop
  | pending {id : Int} {deed : Deed} {earlier : List Deed}
    (last : c.kept back id table row = deed :: earlier) : Decides c back table row deed
  | settled {deed : Deed} {earlier : List Deed} (none : ∀ id, c.kept back id table row = [])
    (last : c.settled table row = deed :: earlier) : Decides c back table row deed

/-- However the running transactions end, no two rows of the table have the same key. -/
structure OneRowPerKey (c : Chronicle) (table : TableId) (spec : KeySpec) : Prop where
  apart : ∀ {back : Int → Nat} {row row' : RowHandle} {deed deed' : Deed} {key : Bytes},
    c.Decides back table row deed → c.Decides back table row' deed' →
      deed.Gives spec key → deed'.Gives spec key → row = row'

/-- No running transaction has given a row more than one record on top of what was committed of it. A row
that it has inserted it may have updated once. -/
def UpdatesOnce (c : Chronicle) (table : TableId) : Prop :=
  ∀ (id : Int) (row : RowHandle), (c.writes id table row).countP (·.record?.isSome) ≤
    if c.settled table row = [] then 2 else 1

variable {c : Chronicle} {back : Int → Nat} {id : Int} {tid other : TableId} {row r : RowHandle}
  {deed : Deed} {spec : KeySpec}

/-- A transaction that goes back no further than its last deed to the row keeps all of them. -/
theorem kept_eq (h : ∀ deed ∈ c.writes id tid row, deed.statement < back id) :
    c.kept back id tid row = c.writes id tid row :=
  List.filter_eq_self.mpr fun deed hdeed => decide_eq_true (h deed hdeed)

/-- Where one transaction writes to the row, the last deed is looked for in what is left of its deeds,
and then in those committed. -/
theorem decides_iff (hothers : ∀ other, other ≠ id → c.writes other tid row = []) :
    c.Decides back tid row deed ↔
      ∃ earlier, c.kept back id tid row ++ c.settled tid row = deed :: earlier := by
  constructor
  · intro h
    cases h with
    | @pending writer _ _ last =>
      by_cases hwriter : writer = id
      · rw [← hwriter, last]
        exact ⟨_, rfl⟩
      · rw [kept, hothers writer hwriter] at last
        cases last
    | settled none last =>
      rw [none id, last]
      exact ⟨_, rfl⟩
  · rintro ⟨earlier, hlast⟩
    cases hkept : c.kept back id tid row with
    | nil =>
      rw [hkept, List.nil_append] at hlast
      refine .settled (fun writer => ?_) hlast
      by_cases hwriter : writer = id
      · rw [hwriter, hkept]
      · rw [kept, hothers writer hwriter]
        rfl
    | cons first rest =>
      rw [hkept, List.cons_append] at hlast
      obtain ⟨rfl, _⟩ := List.cons.inj hlast
      exact .pending hkept

/-! ## 1. Events -/

/-- Only the deeds to the rows of the table matter. -/
theorem Decides.of_same {c' : Chronicle}
    (hwrites : ∀ id, c'.writes id tid row = c.writes id tid row)
    (hsettled : c'.settled tid row = c.settled tid row) (h : c'.Decides back tid row deed) :
    c.Decides back tid row deed := by
  have hkept : ∀ id, c'.kept back id tid row = c.kept back id tid row := by
    intro id
    rw [kept, hwrites, kept]
  cases h with
  | pending last => exact .pending ((hkept _).symm.trans last)
  | settled none last =>
    exact .settled (fun id => (hkept id).symm.trans (none id)) (hsettled.symm.trans last)

/-- What is left when a deed has been done: the deed too, if its writer stays in its statement. -/
theorem kept_wrote (record? : Option Record) (writer : Int) :
    (c.tell (.wrote id tid row record?)).kept back writer other r =
      if (writer = id ∧ other = tid ∧ r = row) ∧ c.statement id < back id then
        ⟨id, c.statement id, tid, row, record?⟩ :: c.kept back writer other r
      else c.kept back writer other r := by
  unfold kept
  rw [writes_wrote]
  by_cases hhere : writer = id ∧ other = tid ∧ r = row
  · rw [if_pos hhere, List.filter_cons, hhere.1]
    simp only [decide_eq_true_eq, hhere, and_self, true_and]
  · rw [if_neg hhere, if_neg fun h => hhere h.1]

/-- What decides when a deed has been done is the deed, or what would have decided without it. -/
theorem Decides.of_wrote {record? : Option Record}
    (h : (c.tell (.wrote id tid row record?)).Decides back other r deed) :
    (other = tid ∧ r = row ∧ c.statement id < back id ∧ deed.record? = record?) ∨
      c.Decides back other r deed := by
  cases h with
  | pending last =>
    rw [kept_wrote] at last
    split at last
    · rename_i hstands
      obtain ⟨⟨_, htable, hrow⟩, hbefore⟩ := hstands
      left
      rw [← (List.cons.inj last).1]
      exact ⟨htable, hrow, hbefore, rfl⟩
    · exact Or.inr (.pending last)
  | settled none last =>
    refine Or.inr (.settled (fun writer => ?_) last)
    have hnone := none writer
    rw [kept_wrote] at hnone
    split at hnone
    · cases hnone
    · exact hnone

/-- A commit may be foreseen: the deeds of the transaction stay whatever the others do. -/
theorem Decides.of_committed {last : Nat} (hlast : ∀ deed ∈ c.writes id tid row, deed.statement < last)
    (h : (c.tell (.committed id)).Decides back tid row deed) :
    c.Decides (Function.update back id last) tid row deed := by
  have hall : c.kept (Function.update back id last) id tid row = c.writes id tid row := by
    refine kept_eq fun deed hdeed => ?_
    rw [Function.update_self]
    exact hlast deed hdeed
  have hothers : ∀ writer, writer ≠ id → c.kept (Function.update back id last) writer tid row =
      (c.tell (.committed id)).kept back writer tid row := by
    intro writer hne
    unfold kept
    rw [writes_committed, if_neg hne, Function.update_of_ne hne]
  have hown : (c.tell (.committed id)).kept back id tid row = [] := by
    unfold kept
    rw [writes_committed, if_pos rfl]
    rfl
  cases h with
  | @pending writer _ _ hkept =>
    by_cases hwriter : writer = id
    · rw [hwriter, hown] at hkept
      cases hkept
    · rw [← hothers writer hwriter] at hkept
      exact .pending hkept
  | settled none hsettled =>
    rw [settled_committed] at hsettled
    cases hwrites : c.writes id tid row with
    | nil =>
      -- The transaction had nothing to do with the row.
      rw [hwrites, List.nil_append] at hsettled
      refine .settled (fun writer => ?_) hsettled
      by_cases hwriter : writer = id
      · rw [hwriter, hall, hwrites]
      · rw [hothers writer hwriter]
        exact none writer
    | cons first earlier =>
      rw [hwrites, List.cons_append] at hsettled
      obtain ⟨rfl, _⟩ := List.cons.inj hsettled
      rw [hwrites] at hall
      exact .pending hall

/-- A rollback may be foreseen: the transaction goes back no further than it would have gone. -/
theorem Decides.of_undone {whole : Bool}
    (hnow : ∀ deed ∈ c.writes id tid row, deed.statement ≤ c.statement id)
    (h : (c.tell (.undone id whole)).Decides back tid row deed) :
    c.Decides (Function.update back id (if whole then 0 else min (back id) (c.statement id)))
      tid row deed := by
  have hkept : ∀ writer, c.kept (Function.update back id
      (if whole then 0 else min (back id) (c.statement id))) writer tid row =
        (c.tell (.undone id whole)).kept back writer tid row := by
    intro writer
    unfold kept
    rw [writes_undone]
    by_cases hwriter : writer = id
    · rw [if_pos hwriter, hwriter, Function.update_self]
      cases whole with
      | true =>
        rw [if_pos rfl, if_pos rfl, List.filter_nil, List.filter_eq_nil_iff]
        intro deed _
        simp
      | false =>
        rw [if_neg Bool.false_ne_true, if_neg Bool.false_ne_true, List.filter_filter]
        refine List.filter_congr fun deed hdeed => ?_
        have hle := hnow deed hdeed
        rw [← Bool.decide_and, decide_eq_decide]
        omega
    · rw [if_neg hwriter, Function.update_of_ne hwriter]
  cases h with
  | pending last => exact .pending ((hkept _).trans last)
  | settled none last => exact .settled (fun writer => (hkept writer).trans (none writer)) last

namespace OneRowPerKey

variable (one : c.OneRowPerKey tid spec)
include one

theorem of_same {c' : Chronicle} (hwrites : ∀ id row, c'.writes id tid row = c.writes id tid row)
    (hsettled : ∀ row, c'.settled tid row = c.settled tid row) : c'.OneRowPerKey tid spec :=
  ⟨fun h h' => one.apart (h.of_same (hwrites · _) (hsettled _)) (h'.of_same (hwrites · _) (hsettled _))⟩

/-- A deletion gives no key. -/
theorem deleted (id : Int) (other : TableId) (row : RowHandle) :
    (c.tell (.wrote id other row none)).OneRowPerKey tid spec := by
  have hbefore : ∀ {back : Int → Nat} {r : RowHandle} {deed : Deed} {key : Bytes},
      deed.Gives spec key → (c.tell (.wrote id other row none)).Decides back tid r deed →
        c.Decides back tid r deed := by
    intro back r deed key gives h
    refine h.of_wrote.resolve_left ?_
    rintro ⟨_, _, _, hnone⟩
    have hsome := gives.isSome
    rw [hnone] at hsome
    cases hsome
  exact ⟨fun h h' gives gives' => one.apart (hbefore gives h) (hbefore gives' h') gives gives'⟩

theorem elsewhere (hne : other ≠ tid) (id : Int) (row : RowHandle) (record? : Option Record) :
    (c.tell (.wrote id other row record?)).OneRowPerKey tid spec := by
  have hbefore : ∀ {back : Int → Nat} {r : RowHandle} {deed : Deed},
      (c.tell (.wrote id other row record?)).Decides back tid r deed → c.Decides back tid r deed :=
    fun h => h.of_wrote.resolve_left fun hhere => hne hhere.1.symm
  exact ⟨fun h h' => one.apart (hbefore h) (hbefore h')⟩

/-- A new record goes with the others, if its key can come of no other row while the writer stays in its
statement. -/
theorem wrote {record : Record} (free : ∀ {back : Int → Nat} {r : RowHandle} {deed : Deed}
      {key : Bytes}, c.statement id < back id → spec.keyOf record = .ok key →
        c.Decides back tid r deed → deed.Gives spec key → r = row) :
    (c.tell (.wrote id tid row (some record))).OneRowPerKey tid spec := by
  refine ⟨fun {back r r' deed deed' key} h h' gives gives' => ?_⟩
  have hnew : ∀ {deed : Deed}, deed.record? = some record → deed.Gives spec key →
      spec.keyOf record = .ok key := by
    rintro deed hrecord ⟨found, hfound, hkey⟩
    rw [hrecord] at hfound
    rw [Option.some.inj hfound]
    exact hkey
  rcases h.of_wrote with ⟨_, hrow, hbefore, hrecord⟩ | hold
  · rcases h'.of_wrote with ⟨_, hrow', _, _⟩ | hold'
    · rw [hrow, hrow']
    · rw [hrow, free hbefore (hnew hrecord gives) hold' gives']
  · rcases h'.of_wrote with ⟨_, hrow', hbefore, hrecord⟩ | hold'
    · rw [hrow', free hbefore (hnew hrecord gives') hold gives]
    · exact one.apart hold hold' gives gives'

theorem committed {last : Nat}
    (hlast : ∀ row, ∀ deed ∈ c.writes id tid row, deed.statement < last) :
    (c.tell (.committed id)).OneRowPerKey tid spec :=
  ⟨fun h h' => one.apart (h.of_committed (hlast _)) (h'.of_committed (hlast _))⟩

theorem undone (hnow : ∀ row, ∀ deed ∈ c.writes id tid row, deed.statement ≤ c.statement id)
    (whole : Bool) : (c.tell (.undone id whole)).OneRowPerKey tid spec :=
  ⟨fun h h' => one.apart (h.of_undone (hnow _)) (h'.of_undone (hnow _))⟩

end OneRowPerKey

end Chronicle

/-! ## 2. Owning what may still come -/

namespace Chain

variable {l : Ledger} {deed last : Deed} {earlier undone : List Deed} {chain older : Chain}
  {v : Version} {spec : KeySpec} {transaction : Int} {key : Bytes}

/-- A row is there while there is somebody who does not see its last deed. -/
theorem Shows.exists_newest (h : Shows l (deed :: earlier) chain)
    (hopen : deed.record? = none → l.committedBy deed.transaction l.horizon = false) :
    ∃ newest older, chain = newest :: older := by
  cases chain with
  | cons newest older => exact ⟨newest, older, rfl⟩
  | nil =>
    obtain ⟨dropped, hspells, hdropped⟩ := h
    rcases hdropped with rfl | ⟨v, hv, _⟩ | ⟨_, last, rest, heq, hnone, hsettled⟩
    · exact absurd rfl hspells.ne_nil
    · cases hv
    · obtain ⟨rfl, _⟩ := List.cons.inj heq
      rw [hopen hnone] at hsettled
      cases hsettled

/-- The record of the last deed is that of the newest version. -/
theorem Shows.newest_record (h : Shows l (deed :: earlier) (v :: older)) {record : Record}
    (hrecord : deed.record? = some record) : v.record = record ∧
      v.created = .of deed.transaction deed.statement ∧ v.isMarked = false := by
  obtain ⟨dropped, hspells, _⟩ := h
  obtain ⟨w, rest, heq, hw, hcreated, hmarked, _⟩ := (spells_record hrecord).mp hspells
  obtain ⟨rfl, _⟩ := List.cons.inj heq
  exact ⟨hw, hcreated, hmarked⟩

/-- The version below one that may be taken back is there, and shows the deed before. -/
theorem Shows.below (h : Shows l (last :: earlier) (v :: older)) {record : Record}
    (hrecord : last.record? = some record)
    (hopen : l.committedBy last.transaction l.horizon = false) : Shows l earlier older := by
  obtain ⟨dropped, hspells, hdropped⟩ := h
  obtain ⟨w, rest, heq, _, hcreated, _, hrest⟩ := (spells_record hrecord).mp hspells
  obtain ⟨rfl, rfl⟩ := List.cons.inj heq
  refine ⟨dropped, hrest, ?_⟩
  rcases hdropped with hnil | ⟨u, hu, hsettled⟩ | ⟨hnil, _⟩
  · exact Or.inl hnil
  · rcases List.mem_cons.mp hu with rfl | hu
    · rw [hcreated] at hsettled
      exact absurd (hsettled.symm.trans hopen) (by decide)
    · exact Or.inr (Or.inl ⟨u, hu, hsettled⟩)
  · cases hnil

/-- A deletion has marked the newest version, which shows the deed before without its mark. -/
theorem Shows.unmark (h : Shows l (last :: earlier) (v :: older)) (hnone : last.record? = none) :
    ∃ w, v = w.mark (.of last.transaction last.statement) ∧ w.isMarked = false ∧
      Shows l earlier (w :: older) := by
  obtain ⟨dropped, hspells, hdropped⟩ := h
  obtain ⟨w, rest, heq, hmarked, _, hrest⟩ := (spells_deletion hnone).mp hspells
  obtain ⟨rfl, rfl⟩ := List.cons.inj heq
  refine ⟨w, rfl, hmarked, dropped, hrest, hdropped.imp_right ?_⟩
  rintro (⟨u, hu, hsettled⟩ | ⟨hnil, _⟩)
  · refine Or.inl ?_
    rcases List.mem_cons.mp hu with rfl | hu
    · rw [Version.created_mark] at hsettled
      exact ⟨w, List.mem_cons_self, hsettled⟩
    · exact ⟨u, List.mem_cons_of_mem _ hu, hsettled⟩
  · cases hnil

/-- The key that the last deed gives is that of the newest version. -/
theorem Shows.newest_gives (h : Shows l (deed :: earlier) chain) (gives : deed.Gives spec key) :
    ∃ v older, chain = v :: older ∧ v.deleted = none ∧ spec.keyOf v.record = .ok key := by
  obtain ⟨record, hrecord, hkey⟩ := gives
  obtain ⟨v, older, rfl⟩ := h.exists_newest fun hnone => by
    rw [hrecord] at hnone
    cases hnone
  obtain ⟨rfl, _, hmarked⟩ := h.newest_record hrecord
  exact ⟨v, older, rfl, Version.deleted_eq_none.mpr (Version.isMarked_eq_false.mp hmarked), hkey⟩

/-- The row owns the key that the last deed gives. -/
theorem Shows.owns_of_gives (h : Shows l (deed :: earlier) chain) (gives : deed.Gives spec key) :
    Owns spec l transaction key chain := by
  obtain ⟨v, older, rfl, hunmarked, hkey⟩ := h.newest_gives gives
  refine ⟨?_, Or.inl hkey⟩
  rw [hunmarked]
  rfl

/-- It owns the key that the deed before gives, too, if somebody else may yet take the last one back. -/
theorem Shows.owns_of_below (h : Shows l (last :: deed :: earlier) chain)
    (gives : deed.Gives spec key) (hlast : last.record?.isSome = true)
    (hother : last.transaction ≠ transaction) (hopen : l.isCommitted last.transaction = false) :
    Owns spec l transaction key chain := by
  have hreach : l.committedBy last.transaction l.horizon = false :=
    Ledger.not_committedBy hopen _
  obtain ⟨record, hrecord⟩ := Option.isSome_iff_exists.mp hlast
  obtain ⟨v, older, rfl⟩ := h.exists_newest fun _ => hreach
  obtain ⟨_, hcreated, hmarked⟩ := h.newest_record hrecord
  obtain ⟨previous, rest, rfl, _, hkey⟩ := (h.below hrecord hreach).newest_gives gives
  refine ⟨?_, Or.inr ⟨?_, ?_, previous, rest, rfl, hkey⟩⟩
  · rw [Version.deleted_eq_none.mpr (Version.isMarked_eq_false.mp hmarked)]
    rfl
  · rw [hcreated]
    exact hother
  · rw [hcreated]
    exact hopen

/-- A deletion by somebody else who has not committed gives no key up. -/
theorem Owns.mark {id : Int} {statement : Nat} (h : Owns spec l transaction key (v :: older))
    (hpos : 0 < id) (hfits : id < 2 ^ 40) (hother : id ≠ transaction)
    (hopen : l.isCommitted id = false) :
    Owns spec l transaction key (v.mark (.of id statement) :: older) := by
  rw [Owns, Version.deleted_mark hpos hfits, Version.record_mark, Version.created_mark,
    Option.any_some]
  refine ⟨?_, h.2⟩
  rw [Stamp.of, beq_false_of_ne hother, hopen]
  rfl

/-- One record on top of the one with the key hides it from nobody else. -/
theorem Shows.owns_of_records (h : Shows l (undone ++ deed :: earlier) chain)
    (gives : deed.Gives spec key) (hrecords : ∀ last ∈ undone, last.record?.isSome = true)
    (hothers : ∀ last ∈ undone, last.transaction ≠ transaction ∧
      l.isCommitted last.transaction = false)
    (once : undone.length ≤ 1) : Owns spec l transaction key chain := by
  cases undone with
  | nil => exact h.owns_of_gives gives
  | cons last rest =>
    have hrest : rest = [] := by
      rw [List.length_cons] at once
      exact List.length_eq_zero_iff.mp (by omega)
    subst hrest
    obtain ⟨hother, hopen⟩ := hothers last List.mem_cons_self
    exact h.owns_of_below gives (hrecords last List.mem_cons_self) hother hopen

/-- A row owns the key that it gets when others take back what they have done to it, unless they have
put two records on top of the one with the key. -/
theorem Shows.owns_of_undone (h : Shows l (undone ++ deed :: earlier) chain)
    (gives : deed.Gives spec key)
    (hids : ∀ last ∈ undone, 0 < last.transaction ∧ last.transaction < 2 ^ 40)
    (hothers : ∀ last ∈ undone, last.transaction ≠ transaction ∧
      l.isCommitted last.transaction = false)
    (final : ∀ last ∈ (undone ++ deed :: earlier).tail, last.record?.isSome = true)
    (once : undone.countP (·.record?.isSome) ≤ 1) : Owns spec l transaction key chain := by
  cases undone with
  | nil => exact h.owns_of_gives gives
  | cons last rest =>
    have hrest : ∀ later ∈ rest, later.record?.isSome = true :=
      fun later hlater => final later (List.mem_append_left _ hlater)
    rw [List.countP_cons, List.countP_eq_length.mpr hrest] at once
    cases hlast : last.record? with
    | some record =>
      rw [hlast, Option.isSome_some, if_pos rfl] at once
      refine h.owns_of_records gives (fun later hlater => ?_) hothers once
      rcases List.mem_cons.mp hlater with rfl | hlater
      · rw [hlast]
        rfl
      · exact hrest later hlater
    | none =>
      -- The row has been deleted by somebody else, but not for good.
      rw [hlast, Option.isSome_none, if_neg Bool.false_ne_true] at once
      obtain ⟨hpos, hfits⟩ := hids last List.mem_cons_self
      obtain ⟨hother, hopen⟩ := hothers last List.mem_cons_self
      obtain ⟨_, older, rfl⟩ := h.exists_newest fun _ => Ledger.not_committedBy hopen _
      obtain ⟨v, rfl, _, hbelow⟩ := h.unmark hlast
      have howns := hbelow.owns_of_records gives hrest
        (fun later hlater => hothers later (List.mem_cons_of_mem _ hlater)) once
      exact howns.mark hpos hfits hother hopen

end Chain

/-! ## 3. What decides is owned -/

namespace Chronicle

/-- What is taken back lies on top of what is left. -/
theorem exists_undone {deeds : List Deed}
    (sorted : deeds.Pairwise fun later earlier => earlier.statement ≤ later.statement) (first : Nat) :
    ∃ undone, deeds = undone ++ deeds.filter (fun deed => decide (deed.statement < first)) ∧
      ∀ deed ∈ undone, first ≤ deed.statement := by
  induction deeds with
  | nil => exact ⟨[], rfl, fun _ h => by cases h⟩
  | cons deed deeds ih =>
    obtain ⟨hbelow, hsorted⟩ := List.pairwise_cons.mp sorted
    rw [List.filter_cons]
    by_cases hbefore : deed.statement < first
    · refine ⟨[], ?_, fun _ h => by cases h⟩
      rw [if_pos (decide_eq_true hbefore), List.nil_append, List.filter_eq_self.mpr]
      intro earlier hearlier
      exact decide_eq_true (Nat.lt_of_le_of_lt (hbelow earlier hearlier) hbefore)
    · obtain ⟨undone, hsplit, hundone⟩ := ih hsorted
      refine ⟨deed :: undone, ?_, fun later hlater => ?_⟩
      · rw [if_neg (by rw [decide_eq_false hbefore]; exact Bool.false_ne_true), List.cons_append,
          ← hsplit]
      · rcases List.mem_cons.mp hlater with rfl | hlater
        · exact Nat.le_of_not_lt hbefore
        · exact hundone later hlater

variable {c : Chronicle} {back : Int → Nat} {tid : TableId} {row : RowHandle} {deed : Deed}

/-- What is taken back of a row that has been updated once is one record at most. -/
theorem UpdatesOnce.undone (once : c.UpdatesOnce tid) {spec : KeySpec} {key : Bytes} {id : Int}
    {undone earlier : List Deed} (gives : deed.Gives spec key)
    (hsplit : c.writes id tid row = undone ++ c.kept back id tid row)
    (hlast : c.kept back id tid row ++ c.settled tid row = deed :: earlier) :
    undone.countP (·.record?.isSome) ≤ 1 := by
  have hcount := once id row
  rw [hsplit, List.countP_append] at hcount
  cases hkept : c.kept back id tid row with
  | nil =>
    rw [hkept, List.nil_append] at hlast
    rw [hlast, if_neg (List.cons_ne_nil _ _)] at hcount
    exact Nat.le_trans (Nat.le_add_right _ _) hcount
  | cons first rest =>
    rw [hkept, List.cons_append] at hlast
    obtain ⟨rfl, _⟩ := List.cons.inj hlast
    rw [hkept, List.countP_cons, gives.isSome, if_pos rfl] at hcount
    split at hcount <;> omega

end Chronicle

/-- A row owns every key that may still come of it, as long as nobody updates a row twice. -/
theorem Store.Shows.owns_of_decides {store : Store} {work : Work} {c : Chronicle}
    (shows : store.Shows work c) (ok : store.Ok work) (few : store.ledger.lastId < 2 ^ 40)
    {tid : TableId} {table : Table} (here : store.tables[tid]? = some table)
    (once : c.UpdatesOnce tid) {back : Int → Nat} {row : RowHandle} {deed : Deed} {spec : KeySpec}
    {key : Bytes} {transaction : Int}
    (stays : ∀ deed ∈ c.writes transaction tid row, deed.statement < back transaction)
    (decides : c.Decides back tid row deed) (gives : deed.Gives spec key) :
    Chain.Owns spec store.ledger transaction key (table.chainOf row) := by
  have htable := shows.tables here
  obtain ⟨writer, _, hfree⟩ := (ok.tables here).held row
  have hothers : ∀ other, other ≠ writer → c.writes other tid row = [] :=
    fun other hne => (shows.work.logged other tid row).eq_nil.mp (hfree other hne)
  obtain ⟨undone, hsplit, hback⟩ := Chronicle.exists_undone
    (shows.work.pairwise_writes ok.runs writer tid row) (back writer)
  change c.writes writer tid row = undone ++ c.kept back writer tid row at hsplit
  obtain ⟨earlier, hlast⟩ := (Chronicle.decides_iff hothers).mp decides
  have hdeeds : c.writes writer tid row ++ c.settled tid row = undone ++ deed :: earlier := by
    rw [hsplit, List.append_assoc, hlast]
  have hmem : ∀ last ∈ undone, last ∈ c.writes writer tid row := by
    intro last hundone
    rw [hsplit]
    exact List.mem_append_left _ hundone
  have hchain := htable.chains writer row hothers
  have hfinal := htable.final writer row
  rw [hdeeds] at hchain hfinal
  refine hchain.owns_of_undone gives (fun last hundone => ?_) (fun last hundone => ?_) hfinal
    (once.undone gives hsplit hlast)
  · exact shows.known_deed ok few (List.mem_append_left _ (hmem last hundone))
  · have htransaction := Chronicle.transaction_of_mem_writes shows.sound (hmem last hundone)
    obtain ⟨s, hs⟩ := shows.work.running ok.runs (List.ne_nil_of_mem (hmem last hundone))
    rw [htransaction]
    refine ⟨?_, Ledger.not_isCommitted_of_active ok.ledger hs⟩
    -- The transaction itself does not go back so far.
    rintro rfl
    exact absurd (stays last (hmem last hundone)) (Nat.not_lt.mpr (hback last hundone))

end SnapshotStore
