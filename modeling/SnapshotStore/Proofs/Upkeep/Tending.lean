import Mathlib
import SnapshotStore.Proofs.Upkeep.Endings
import SnapshotStore.Proofs.Table.Cleared

/-!
# The books when a table is tended

Reclamation deals with a note once, and an index that is built takes up every version that is linked.
Either may leave an entry that nobody answers for. If a running transaction has given a row a key back
whose entry is noted, the entry stays for its sake and the note goes, and should the transaction be undone
nobody remembers the entry. An index that is built takes up keys that rows have been moved away from, or
that a running transaction may take back, and makes no notes.

So both have a condition: the notes that are due must not meet a version that may yet be taken back
(`Table.Unhindered`), and an index is to be built when the versions carry the last keys of their rows only
(`Table.AllLast`). Then the books stay in order (`Accounted.reclaimed`, `Accounted.built`).
-/

namespace SnapshotStore

open Chain

namespace Table

/-- No version that may yet be taken back carries the key of an entry that is due to go. -/
structure Unhindered (l : Ledger) (table : Table) : Prop where
  committed : ∀ note ∈ table.outdated, note.sequence ≤ l.horizon → ∀ {index : Index},
    table.indexes[note.index]? = some index → ∀ v ∈ table.chainOf note.row,
      index.spec.carries v.record note.entry = .ok true →
        l.isCommitted v.created.transaction = true

/-- Every version that is linked has the key of the last record that was committed of its row. -/
structure AllLast (c : Chronicle) (tid : TableId) (spec : KeySpec) (table : Table) : Prop where
  last : ∀ {row : RowHandle} {v : Version} {key : Bytes}, v ∈ table.chainOf row →
    spec.Keyed table.maxKeyLength v.record key → Deed.LastGives (c.settled tid row) spec key

variable {l : Ledger} {work : Work} {c : Chronicle} {tid : TableId} {table after : Table}
  {i : Nat} {entry : Bytes} {row : RowHandle} {deed : Deed} {spec : KeySpec} {key : Bytes}

/-- One transaction at most has deeds to a row pending. -/
theorem Ok.exists_writer (ok : Ok l work tid [] table) (worked : work.Shows c) (row : RowHandle) :
    ∃ writer, ∀ other, other ≠ writer → c.writes other tid row = [] := by
  obtain ⟨writer, _, hfree⟩ := ok.held row
  exact ⟨writer, fun other hne => (worked.logged other tid row).eq_nil.mp (hfree other hne)⟩

/-! ## 1. Reclaiming -/

theorem Reclaimed.spec? (h : Reclaimed l table after) (i : Nat) : after.spec? i = table.spec? i := by
  refine spec?_eq h.trimmed.count (fun hindex => ?_) i
  obtain ⟨index', hindex', htrimmed⟩ := h.trimmed.indexes hindex
  exact ⟨index', hindex', htrimmed.spec⟩

theorem Reclaimed.bears (h : Reclaimed l table after) (hbears : after.Bears i entry row) :
    table.Bears i entry row := by
  obtain ⟨index', hindex', hget⟩ := hbears
  obtain ⟨index, hindex, htrimmed⟩ := h.trimmed.index_back hindex'
  exact ⟨index, hindex, htrimmed.of_get hget⟩

/-- A deed that is not pending is among those committed. -/
theorem exists_settled_split {mine settled later earlier : List Deed}
    (h : mine ++ settled = later ++ deed :: earlier) (hnot : deed ∉ mine) :
    ∃ middle, settled = middle ++ deed :: earlier ∧ ∀ d ∈ middle, d ∈ later := by
  rcases List.append_eq_append_iff.mp h with ⟨middle, rfl, hsettled⟩ | ⟨rest, rfl, hrest⟩
  · exact ⟨middle, hsettled, fun d hd => List.mem_append_right _ hd⟩
  · cases rest with
    | nil => exact ⟨[], hrest.symm, fun d hd => by cases hd⟩
    | cons first rest =>
      obtain ⟨rfl, _⟩ := List.cons.inj hrest
      exact absurd (List.mem_append_right _ List.mem_cons_self) hnot

section Reclaiming

variable (h : Accounted l work c tid table) (shows : table.Shows l c tid)
  (ok : Ok l work tid [] table) (lok : l.Ok) (wok : Work.Ok l work) (attests : l.Attests c)
  (worked : work.Shows c) (sound : c.Sound)
include h shows ok lok wok attests worked sound

/-- The key of a committed version in reach is that of the last record committed, or its entry is noted
and not yet due. -/
theorem Accounted.last_or_waiting {v : Version} (hv : v ∈ reach l l.horizon (table.chainOf row))
    (committed : l.isCommitted v.created.transaction = true) (here : table.spec? i = some spec)
    (hkey : spec.keyOf v.record = .ok key) : Deed.LastGives (c.settled tid row) spec key ∨
      ∃ s, l.horizon < s ∧ ⟨i, Key.entry key row, row, s⟩ ∈ table.outdated := by
  obtain ⟨writer, hothers⟩ := ok.exists_writer worked row
  obtain ⟨dropped, hspells, _⟩ := shows.chains writer row hothers
  obtain ⟨later, deed, earlier, hsplit, hrecord, hcreator, hlater⟩ := hspells.of_mem_reach hv
  have hrunning : deed ∉ c.writes writer tid row := by
    intro hdeed
    obtain ⟨s, hs⟩ := worked.running wok (List.ne_nil_of_mem hdeed)
    rw [hcreator, Chronicle.transaction_of_mem_writes sound hdeed,
      Ledger.not_isCommitted_of_active lok hs] at committed
    cases committed
  obtain ⟨middle, hsettled, hmiddle⟩ := exists_settled_split hsplit hrunning
  have hfollows := (h.follows writer row).right_of_append
  have hrecords : ∀ d ∈ (c.settled tid row).tail, d.record?.isSome = true := by
    intro d hd
    refine shows.final writer row d ?_
    cases hown : c.writes writer tid row with
    | nil => exact hd
    | cons _ rest => exact List.mem_append_right _ (List.mem_of_mem_tail hd)
  rw [hsettled] at hfollows hrecords ⊢
  refine (exists_noted hfollows hrecords here ⟨_, hrecord, hkey⟩).imp_right ?_
  rintro ⟨d, hd, hsome, hnoted⟩
  -- Not everybody sees the deed that outdated the entry.
  have hopen := hlater d (hmiddle d hd) hsome
  have hmem : d ∈ c.settled tid row := by
    rw [hsettled]
    exact List.mem_append_left _ hd
  cases hnoted with
  | logged note =>
    obtain ⟨s, hs⟩ := Chronicle.committedAt_of_mem_settled sound hmem
    obtain ⟨txn, running, _⟩ := Work.Ok.exists_of_mem_log note
    exact absurd hs (attests.not_committedAt (wok.running running) s)
  | @waiting s hs note =>
    refine ⟨s, Int.not_le.mp fun hle => ?_, note⟩
    rw [attests.committedBy hs (Int.le_refl _), decide_eq_true hle] at hopen
    cases hopen
  | past hs seen =>
    rw [attests.committedBy hs (Int.le_refl _), decide_eq_true seen] at hopen
    cases hopen

/-- An entry that is left after reclamation has somebody to take it out. -/
theorem Accounted.covered_reclaimed (unhindered : table.Unhindered l)
    (hbears : (table.reclaim l).1.Bears i entry row) :
    Covered work c tid (table.reclaim l).1 i entry row := by
  obtain ⟨hreclaimed, _, _⟩ := ok.reclaim lok wok
  obtain ⟨_, hwaiting⟩ := ok.reclaim_waiting lok wok
  have hstays : ∀ {s : Int}, l.horizon < s → ⟨i, entry, row, s⟩ ∈ table.outdated →
      Covered work c tid (table.reclaim l).1 i entry row := by
    intro s hlt note
    have hleft : ⟨i, entry, row, s⟩ ∈ (table.reclaim l).1.outdated := by
      rw [hwaiting]
      refine List.mem_filter.mpr ⟨note, ?_⟩
      rw [decide_eq_false (Int.not_le.mpr hlt)]
      rfl
    exact .outdated hleft
  cases h.covered (hreclaimed.bears hbears) with
  | pending bound => exact .pending bound
  | last here gives eq => exact .last ((hreclaimed.spec? i).trans here) gives eq
  | @outdated s note =>
    by_cases hdue : s ≤ l.horizon
    · obtain ⟨index', hindex', hget⟩ := hbears
      obtain ⟨_, hdropped⟩ := ok.reclaim_clears lok wok
      obtain ⟨v, hv, hcarries⟩ := (hdropped _ note hdue).carried hindex' hget
      obtain ⟨index, hindex, htrimmed⟩ := hreclaimed.trimmed.index_back hindex'
      rw [hreclaimed.chainOf] at hv
      split at hv
      · cases hv
      · obtain ⟨w, hw, hsame⟩ := exists_mem_reach_of_truncated hv
        rw [htrimmed.spec, hsame] at hcarries
        have hcommitted :=
          unhindered.committed _ note hdue hindex w (mem_of_mem_reach hw) hcarries
        obtain ⟨key, rfl⟩ := (ok.indexes hindex).sound (htrimmed.of_get hget)
        obtain ⟨b, hb, hkey⟩ :=
          carries_entry ((ok.indexes hindex).keyed (mem_of_mem_reach hw)) key row
        cases hb.symm.trans hcarries
        have here := spec?_eq_some.mpr ⟨index, hindex, rfl⟩
        rcases h.last_or_waiting shows ok lok wok attests worked sound hw hcommitted here
          (hkey.mp rfl) with hlast | ⟨s', hlt, hnote⟩
        · exact .last ((hreclaimed.spec? i).trans here) hlast rfl
        · exact hstays hlt hnote
    · exact hstays (Int.not_le.mp hdue) note

omit attests worked sound in
/-- The entry of the last record of a row goes when the row is purged. -/
theorem Accounted.last_gone (hpurged : row ∈ table.purging l.horizon)
    (hidle : ∀ other, c.writes other tid row = []) (here : table.spec? i = some spec)
    (gives : Deed.LastGives (c.settled tid row) spec key) :
    ¬(table.reclaim l).1.Bears i (Key.entry key row) row := by
  rintro ⟨index', hindex', hget⟩
  obtain ⟨hreclaimed, _, _⟩ := ok.reclaim lok wok
  obtain ⟨hcleared, _⟩ := ok.reclaim_clears lok wok
  obtain ⟨index, hindex, htrimmed⟩ := hreclaimed.trimmed.index_back hindex'
  have hthere := h.linked (hreclaimed.bears ⟨index', hindex', hget⟩)
  have hshows := shows.chains 0 row fun other _ => hidle other
  obtain ⟨v, older, hchain⟩ := List.exists_cons_of_ne_nil hthere
  have hv : v ∈ table.chainOf row := by
    rw [hchain]
    exact List.mem_cons_self
  -- The newest version has the last record, and purging has asked it for its keys.
  rw [hidle, List.nil_append, hchain] at hshows
  obtain ⟨dropped, hspells, _⟩ := hshows
  obtain ⟨deed, hfound, hrecord⟩ := hspells.last_record
  obtain ⟨_, hlast, record, hgiven, hkey⟩ := gives
  cases hfound.symm.trans hlast
  cases hrecord.symm.trans hgiven
  obtain ⟨found, hsame, rfl⟩ := spec?_eq_some.mp here
  cases hindex.symm.trans hsame
  obtain ⟨own, hown⟩ := (ok.indexes hindex).keyed hv
  cases hown.1.symm.trans hkey
  refine (hcleared row hpurged).gone hindex' hv ?_ hget
  rw [htrimmed.spec, hreclaimed.rest.maxKeyLength]
  exact hown

omit ok lok wok worked in
/-- What is noted of a row that was deleted was noted by then. -/
theorem Accounted.outdated_le {s s' : Int} (hdelete : (row, s) ∈ table.pendingDeletes)
    (hnote : ⟨i, entry, row, s'⟩ ∈ table.outdated) : s' ≤ s := by
  obtain ⟨deed, hdeed, hat⟩ := h.outdated _ hnote
  obtain ⟨last, earlier, hsettled, _, hlast⟩ := shows.notes hdelete
  have horder := Chronicle.pairwise_settled sound tid row
  rw [hsettled] at hdeed horder
  rcases List.mem_cons.mp hdeed with rfl | hdeed
  · exact Int.le_of_eq (attests.unique hat hlast)
  · obtain ⟨_, _, hlater, hearlier, hle⟩ := (List.pairwise_cons.mp horder).1 deed hdeed
    rw [attests.unique hlater hlast, attests.unique hearlier hat] at hle
    exact hle

/-- No entry leads to a row that has been purged: those of its last record have gone with it, and no
note on it was waiting. -/
theorem Accounted.linked_reclaimed (hbears : (table.reclaim l).1.Bears i entry row) :
    (table.reclaim l).1.chainOf row ≠ [] := by
  obtain ⟨hreclaimed, _, _⟩ := ok.reclaim lok wok
  obtain ⟨_, hdropped⟩ := ok.reclaim_clears lok wok
  have hbefore := hreclaimed.bears hbears
  rw [hreclaimed.chainOf]
  split
  · rename_i hpurged
    exfalso
    obtain ⟨s, hnote, hdue⟩ := mem_purging.mp hpurged
    have hidle : ∀ other, c.writes other tid row = [] :=
      fun other => (worked.logged other tid row).eq_nil.mp ((ok.pending hnote).2.2 other)
    cases h.covered hbefore with
    | pending bound =>
      obtain ⟨_, _, _, _, _, hdeed, _⟩ := h.bound bound
      rw [hidle] at hdeed
      cases hdeed
    | last here gives eq =>
      rw [eq] at hbears
      exact h.last_gone shows ok lok wok hpurged hidle here gives hbears
    | @outdated s' note =>
      have hdue' : s' ≤ l.horizon :=
        Int.le_trans (h.outdated_le shows attests sound hnote note) hdue
      obtain ⟨index', hindex', hget⟩ := hbears
      obtain ⟨v, hv, _⟩ := (hdropped _ note hdue').carried hindex' hget
      rw [hreclaimed.chainOf, if_pos hpurged] at hv
      cases hv
  · rcases truncated_cases table l l.horizon (table.chainOf row) with heq | ⟨_, _, _, _, _, heq⟩
    · rw [heq]
      exact h.linked hbefore
    · rw [heq]
      exact List.cons_ne_nil _ _

/-- Reclamation keeps the books in order, if no note that is due meets a version that may be taken
back. -/
theorem Accounted.reclaimed (unhindered : table.Unhindered l) :
    Accounted l.prune.1 work c tid (table.reclaim l).1 := by
  obtain ⟨hreclaimed, _, _⟩ := ok.reclaim lok wok
  obtain ⟨hdeletes, hwaiting⟩ := ok.reclaim_waiting lok wok
  refine ⟨fun id row => ?follows, fun {id s i entry row} hin => ?bound, h.logged,
    fun note hnote => ?outdated, fun {row deed earlier} hall hnone hthere => ?deleted,
    h.linked_reclaimed shows ok lok wok attests worked sound,
    h.covered_reclaimed shows ok lok wok attests worked sound unhindered⟩
  case follows =>
    refine (h.follows id row).imp fun later earlier hfollows => ?_
    refine hfollows.goes_on (fun here => (hreclaimed.spec? _).symm.trans here) fun hnoted => ?_
    refine hnoted.goes_on .logged (fun hat => hat) (Int.le_of_eq Ledger.horizon_prune.symm) ?_
    intro note hnote
    by_cases hdue : note.sequence ≤ l.horizon
    · exact Or.inr hdue
    · rw [hwaiting]
      refine Or.inl (List.mem_filter.mpr ⟨hnote, ?_⟩)
      rw [decide_eq_false hdue]
      rfl
  case bound =>
    rw [hreclaimed.spec?]
    exact h.bound hin
  case outdated =>
    rw [hwaiting] at hnote
    exact h.outdated note (List.mem_filter.mp hnote).1
  case deleted =>
    rw [hreclaimed.chainOf] at hthere
    split at hthere
    · exact absurd rfl hthere
    · rename_i hkept
      have hbefore : table.chainOf row ≠ [] := by
        intro hnil
        rw [hnil, truncated_nil] at hthere
        exact hthere rfl
      obtain ⟨s, hnote⟩ := h.deleted hall hnone hbefore
      refine ⟨s, ?_⟩
      rw [hdeletes]
      refine List.mem_filter.mpr ⟨hnote, ?_⟩
      have hlate : ¬ s ≤ l.horizon := fun hdue => hkept (mem_purging.mpr ⟨s, hnote, hdue⟩)
      rw [decide_eq_false hlate]
      rfl

end Reclaiming

/-! ## 2. Building -/

section Building

variable {filling : Filling} {buildSpec : KeySpec} (built : Built table buildSpec after filling)
include built

theorem Built.spec?_of_before (here : table.spec? i = some spec) : after.spec? i = some spec := by
  obtain ⟨index, hindex, rfl⟩ := spec?_eq_some.mp here
  refine spec?_eq_some.mpr ⟨index, ?_, rfl⟩
  rw [built.eq]
  exact (List.getElem?_append_left (List.getElem?_eq_some_iff.mp hindex).1).trans hindex

/-- An index is one of before, or the new one. -/
theorem Built.index_cases {index : Index} (h : after.indexes[i]? = some index) :
    table.indexes[i]? = some index ∨ index = filling.index := by
  rw [built.eq] at h
  change (table.indexes ++ [filling.index])[i]? = some index at h
  rw [List.getElem?_append] at h
  split at h
  · exact Or.inl h
  · rw [List.getElem?_singleton, ite_eq_iff] at h
    obtain ⟨_, h⟩ := h.resolve_right (by simp)
    exact Or.inr (Option.some.inj h).symm

end Building

/-- All versions of a row that are linked have one key. -/
theorem AllLast.unique (allLast : table.AllLast c tid spec) {v w : Version} {own other : Bytes}
    (hv : v ∈ table.chainOf row) (hown : spec.Keyed table.maxKeyLength v.record own)
    (hw : w ∈ table.chainOf row) (hother : spec.Keyed table.maxKeyLength w.record other) :
    other = own := by
  obtain ⟨last, hlast, record, hrecord, hkey⟩ := allLast.last hv hown
  obtain ⟨last', hlast', record', hrecord', hkey'⟩ := allLast.last hw hother
  cases hlast.symm.trans hlast'
  cases hrecord.symm.trans hrecord'
  exact Except.ok.inj (hkey'.symm.trans hkey)

/-- Of two records on top of one another both have one key, if everything that is linked has the last one
and the later record is not seen by everybody yet. -/
theorem AllLast.follows_open (allLast : table.AllLast c tid spec) (shows : table.Shows l c tid)
    (keyed : ∀ v ∈ table.chainOf row, ∃ key, spec.Keyed table.maxKeyLength v.record key)
    {writer : Int} (hothers : ∀ other, other ≠ writer → c.writes other tid row = [])
    {top bottom : List Deed} {later earlier : Deed}
    (hsplit : c.writes writer tid row ++ c.settled tid row = top ++ later :: earlier :: bottom)
    (hopen : ∀ d ∈ top ++ [later], l.committedBy d.transaction l.horizon = false)
    (hsome : later.record?.isSome = true) (gives : earlier.Gives spec key) :
    later.Gives spec key := by
  have hshows := shows.chains writer row hothers
  have hfinal := shows.final writer row
  rw [hsplit] at hshows hfinal
  have hthere : table.chainOf row ≠ [] := by
    intro hnil
    rw [hnil] at hshows
    cases top with
    | nil =>
      obtain ⟨_, _, heq⟩ := hshows.exists_newest fun _ => hopen later List.mem_cons_self
      cases heq
    | cons first top =>
      obtain ⟨_, _, heq⟩ := hshows.exists_newest fun _ => hopen first List.mem_cons_self
      cases heq
  -- Both records are linked, as neither has been replaced by one that everybody sees.
  obtain ⟨record, hrecord⟩ := Option.isSome_iff_exists.mp hsome
  obtain ⟨v, hv, rfl⟩ := hshows.mem_of_open hthere hfinal
    (fun d hd _ => hopen d (List.mem_append_left _ hd)) hrecord
  obtain ⟨below, hbelow, hkey⟩ := gives
  rw [← List.singleton_append, ← List.append_assoc] at hshows hfinal
  obtain ⟨w, hw, rfl⟩ := hshows.mem_of_open hthere hfinal (fun d hd _ => hopen d hd) hbelow
  obtain ⟨own, hown⟩ := keyed v hv
  obtain ⟨old, hold⟩ := keyed w hw
  have hsame := allLast.unique hv hown hw hold
  cases hold.1.symm.trans hkey
  exact ⟨v.record, hrecord, hsame ▸ hown.1⟩

section AllLast

variable (shows : table.Shows l c tid) (lok : l.Ok) (wok : Work.Ok l work)
  (attests : l.Attests c) (worked : work.Shows c) (sound : c.Sound)
include shows lok wok attests worked sound

/-- Of two records on top of one another both have one key, if everything that is linked has the last one,
or everybody sees that the earlier has been replaced. -/
theorem AllLast.follows (allLast : table.AllLast c tid spec)
    (keyed : ∀ v ∈ table.chainOf row, ∃ key, spec.Keyed table.maxKeyLength v.record key)
    {writer : Int} (hothers : ∀ other, other ≠ writer → c.writes other tid row = [])
    {top bottom : List Deed} {later earlier : Deed}
    (hsplit : c.writes writer tid row ++ c.settled tid row = top ++ later :: earlier :: bottom)
    (hsome : later.record?.isSome = true) (gives : earlier.Gives spec key) :
    later.Gives spec key ∨ ∃ s, c.CommittedAt later.transaction s ∧ s ≤ l.horizon := by
  cases hseen : l.committedBy later.transaction l.horizon with
  | true =>
    have hin : later ∈ c.writes writer tid row ++ c.settled tid row := by
      rw [hsplit]
      exact List.mem_append_right _ List.mem_cons_self
    right
    rcases worked.ends wok sound hin with ⟨s, hs⟩ | ⟨s, hs⟩
    · rw [Ledger.not_committedBy (Ledger.not_isCommitted_of_active lok hs)] at hseen
      cases hseen
    · rw [attests.committedBy hs (Int.le_refl _)] at hseen
      exact ⟨s, hs, of_decide_eq_true hseen⟩
  | false =>
    left
    have hpairs := worked.pairwise_settled lok wok sound attests writer tid row
    rw [hsplit] at hpairs
    have hopen : ∀ d ∈ top ++ [later], l.committedBy d.transaction l.horizon = false := by
      intro d hd
      rcases List.mem_append.mp hd with hd | hd
      · refine Bool.eq_false_iff.mpr fun hsettled => ?_
        have hbelow := (List.pairwise_append.mp hpairs).2.2 d hd later List.mem_cons_self hsettled
        rw [hseen] at hbelow
        cases hbelow
      · rw [List.mem_singleton.mp hd]
        exact hseen
    exact allLast.follows_open shows keyed hothers hsplit hopen hsome gives

/-- Building an index keeps the books in order, if what is linked has the last keys of the rows. -/
theorem Accounted.built (h : Accounted l work c tid table) (ok : Ok l work tid [] table)
    {buildSpec : KeySpec} {filling : Filling} (built : Built table buildSpec after filling)
    (allLast : table.AllLast c tid filling.index.spec) : Accounted l work c tid after := by
  have hchain : ∀ row, after.chainOf row = table.chainOf row := by
    intro row
    rw [built.eq]
    rfl
  have houtdated : after.outdated = table.outdated := by rw [built.eq]
  have hpending : after.pendingDeletes = table.pendingDeletes := by rw [built.eq]
  have hnew : ∀ {entry : Bytes} {row : RowHandle}, filling.index.trie.get? entry = some row →
      ∃ v ∈ table.chainOf row, ∃ key, filling.index.spec.Keyed table.maxKeyLength v.record key ∧
        entry = Key.entry key row := built.only
  have hnoted : ∀ {i : Nat} {entry : Bytes} {row : RowHandle} {deed : Deed},
      Noted l work c tid table i entry row deed → Noted l work c tid after i entry row deed := by
    intro i entry row deed hnoted
    exact hnoted.goes_on .logged (fun hat => hat) (Int.le_refl _)
      fun note hnote => Or.inl (houtdated ▸ hnote)
  refine ⟨fun id row => ?follows, fun {id s i entry row} hin => ?bound, h.logged,
    fun note hnote => ?outdated, fun {row deed earlier} hall hnone hthere => ?deleted,
    fun {i entry row} hbears => ?linked, fun {i entry row} hbears => ?covered⟩
  case follows =>
    obtain ⟨writer, hothers⟩ := ok.exists_writer worked row
    have hwriter : (c.writes writer tid row ++ c.settled tid row).IsChain
        (Follows l work c tid after row) := by
      refine List.isChain_iff_forall_rel_of_append_cons_cons.mpr fun later earlier top bottom hsplit =>
        ⟨fun {i spec key} here hsome gives => ?_⟩
      obtain ⟨index, hindex, rfl⟩ := spec?_eq_some.mp here
      rcases built.index_cases hindex with hbefore | rfl
      · have hfollows := List.isChain_iff_forall_rel_of_append_cons_cons.mp (h.follows writer row) hsplit
        exact (hfollows.stays (spec?_eq_some.mpr ⟨index, hbefore, rfl⟩) hsome gives).imp_right hnoted
      · refine (allLast.follows shows lok wok attests worked sound (fun v hv => ?_) hothers hsplit hsome
          gives).imp_right fun ⟨_, hs, hle⟩ => .past hs hle
        obtain ⟨key, hkey, _⟩ := built.entered hv
        exact ⟨key, hkey⟩
    by_cases heq : id = writer
    · rw [heq]
      exact hwriter
    · rw [hothers id heq]
      exact hwriter.right_of_append
  case bound =>
    obtain ⟨spec, key, here, hrest⟩ := h.bound hin
    exact ⟨spec, key, built.spec?_of_before here, hrest⟩
  case outdated =>
    rw [houtdated] at hnote
    exact h.outdated note hnote
  case deleted =>
    rw [hchain] at hthere
    rw [hpending]
    exact h.deleted hall hnone hthere
  case linked =>
    obtain ⟨index, hindex, hget⟩ := hbears
    rw [hchain]
    rcases built.index_cases hindex with hbefore | rfl
    · exact h.linked ⟨index, hbefore, hget⟩
    · obtain ⟨v, hv, _⟩ := hnew hget
      exact List.ne_nil_of_mem hv
  case covered =>
    obtain ⟨index, hindex, hget⟩ := hbears
    rcases built.index_cases hindex with hbefore | rfl
    · cases h.covered ⟨index, hbefore, hget⟩ with
      | pending bound => exact .pending bound
      | last here gives eq => exact .last (built.spec?_of_before here) gives eq
      | outdated note => exact .outdated (houtdated ▸ note)
    · obtain ⟨v, hv, key, hkey, hentry⟩ := hnew hget
      exact .last (spec?_eq_some.mpr ⟨_, hindex, rfl⟩) (allLast.last hv hkey) hentry

end AllLast

end Table
end SnapshotStore
