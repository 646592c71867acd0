import Mathlib
import SnapshotStore.Proofs.Upkeep.Tending

/-!
# What is left when nobody is running

While no transaction is running everything that was noted is due, and no version may be taken back. So
reclaiming a table that keeps no history leaves of it what history says was committed last, and nothing
else (`Accounted.spotless`): a version for each row that has not been deleted, an entry for each of them
in each index, and no notes.

In such a table indexes of the same keys hold the same entries, whenever they were built
(`Spotless.same_entries`), and another one may be built at any time (`Spotless.allLast`).
-/

namespace SnapshotStore

open Chain

/-- No transaction is running. -/
def Ledger.Idle (l : Ledger) : Prop := ∀ id : Int, l.active[id]? = none

theorem Ledger.idle_iff {l : Ledger} : l.Idle ↔ l.active.isEmpty = true := by
  rw [Std.ExtTreeMap.isEmpty_iff]
  constructor
  · intro idle
    exact Std.ExtTreeMap.ext_getElem? fun id => (idle id).trans Std.ExtTreeMap.getElem?_empty.symm
  · intro hempty id
    rw [hempty]
    exact Std.ExtTreeMap.getElem?_empty

instance (l : Ledger) : Decidable l.Idle := decidable_of_iff _ Ledger.idle_iff.symm

/-- While nobody is running the horizon is the last sequence. -/
theorem Ledger.horizon_of_idle {l : Ledger} (idle : l.Idle) : l.horizon = l.sequence := by
  refine Int.le_antisymm (Ledger.horizon_le_sequence l) ?_
  refine Ledger.le_horizon_iff.mpr ⟨Int.le_refl _, fun {id s} hs => ?_⟩
  rw [idle id] at hs
  cases hs

/-- While nobody is running the logs are empty. -/
theorem Work.Ok.log_eq_nil {l : Ledger} {work : Work} (wok : Work.Ok l work) (idle : l.Idle)
    (id : Int) : work.log id = [] := by
  refine List.eq_nil_iff_forall_not_mem.mpr fun entry hin => ?_
  obtain ⟨txn, running, _⟩ := exists_of_mem_log hin
  have hactive := wok.running running
  rw [idle id] at hactive
  cases hactive

namespace Table

variable {l : Ledger} {work : Work} {c : Chronicle} {tid : TableId} {table : Table}
  {row : RowHandle} {spec : KeySpec}

/-- A table without notes, in which every row that was committed has one version and one entry in each
index. -/
structure Spotless (c : Chronicle) (tid : TableId) (table : Table) : Prop where
  /-- A row is there if the last deed to it gave it a record, which is its only one. -/
  rows : ∀ row : RowHandle, (table.rows[row]?).map (List.map (·.record)) =
    ((c.settled tid row).head?.bind (·.record?)).map fun record => [record]
  unmarked : ∀ row, ∀ v ∈ table.chainOf row, v.isMarked = false
  primary : ∀ {key : Bytes} {row : RowHandle}, table.primary.get? key = some row ↔
    key = row.toBytes ∧ (table.rows[row]?).isSome = true
  entered : ∀ {i : Nat} {index : Index}, table.indexes[i]? = some index →
    ∀ row, ∀ v ∈ table.chainOf row, ∃ key,
      index.spec.Keyed table.maxKeyLength v.record key ∧
        ∀ entry, index.trie.get? entry = some row ↔ entry = Key.entry key row
  unlinked : ∀ {i : Nat} {index : Index}, table.indexes[i]? = some index →
    ∀ row, table.chainOf row = [] → ∀ entry, index.trie.get? entry ≠ some row
  pendingDeletes : table.pendingDeletes = []
  outdated : table.outdated = []

/-! ## 1. Conditions that are met -/

/-- Nothing is in the way of reclaiming a table that nobody has written. -/
theorem Ok.unhindered (ok : Ok l work tid [] table)
    (idle : ∀ id row, rowLog tid row (work.log id) = []) : table.Unhindered l where
  committed note _ _ {_} _ v hv _ := by
    obtain ⟨writer, hlayered, _⟩ := ok.held note.row
    rw [idle writer note.row] at hlayered
    exact hlayered v hv

/-- An index may be built of a table without rows. -/
theorem allLast_of_empty (c : Chronicle) (tid : TableId) (spec : KeySpec) (empty : table.rows = ∅) :
    table.AllLast c tid spec where
  last {row v key} hv _ := by
    rw [chainOf_of_absent (by rw [empty]; exact Std.ExtTreeMap.getElem?_empty)] at hv
    cases hv

/-! ## 2. Reclaiming while nobody is running -/

/-- A table that keeps no history keeps one version of a chain that everybody reads the newest of. -/
theorem truncated_eq_singleton (depth : table.maxVersionHistory = 0) {v : Version} {older : Chain}
    (hmarked : v.isMarked = false)
    (hsettled : l.committedBy v.created.transaction l.horizon = true) :
    ∃ w, table.truncated l l.horizon (v :: older) = [w] ∧ w.record = v.record ∧
      w.isMarked = false := by
  have hlong : (v :: older).length > table.maxVersionHistory := by
    rw [depth]
    exact Nat.succ_pos _
  rw [truncated, if_pos hlong, Chain.truncate]
  cases older with
  | nil => exact ⟨v, rfl, rfl, hmarked⟩
  | cons second older =>
    have hcut : isSettled (v :: second :: older) l l.horizon = true := by
      rw [isSettled, hmarked, hsettled]
      rfl
    rw [if_pos hcut]
    exact ⟨v.copy, rfl, rfl, hmarked⟩

section Idle

variable (h : Accounted l work c tid table) (shows : table.Shows l c tid)
  (ok : Ok l work tid [] table) (lok : l.Ok) (wok : Work.Ok l work) (attests : l.Attests c)
  (worked : work.Shows c) (sound : c.Sound) (idle : l.Idle)

include attests sound idle in
/-- Everything that was committed is due. -/
theorem committedAt_le_horizon {id s : Int} (hat : c.CommittedAt id s) : s ≤ l.horizon := by
  rw [Ledger.horizon_of_idle idle, attests.sequence]
  exact hat.le_sequence sound

include h shows ok lok wok attests worked sound idle in
/-- What is left of a row is what was committed last. -/
theorem Accounted.row_of_idle (depth : table.maxVersionHistory = 0) (row : RowHandle) :
    (c.settled tid row).head?.bind (·.record?) = none ∧ (table.reclaim l).1.rows[row]? = none ∨
      ∃ v, (c.settled tid row).head?.bind (·.record?) = some v.record ∧
        (table.reclaim l).1.rows[row]? = some [v] ∧ v.isMarked = false := by
  obtain ⟨hreclaimed, _, _⟩ := ok.reclaim lok wok
  have hidle : ∀ id, c.writes id tid row = [] := by
    intro id
    refine (worked.logged id tid row).eq_nil.mp ?_
    rw [wok.log_eq_nil idle]
    rfl
  have hchain := shows.chains 0 row fun other _ => hidle other
  rw [hidle, List.nil_append] at hchain
  have habsent : table.chainOf row = [] → (table.reclaim l).1.rows[row]? = none := by
    intro hnil
    cases hrow : table.rows[row]? with
    | none =>
      rw [hreclaimed.rows, hrow]
      exact ite_self _
    | some chain =>
      rw [chainOf_eq hrow] at hnil
      exact absurd hnil (ok.occupied hrow)
  cases hsettled : c.settled tid row with
  | nil =>
    rw [hsettled] at hchain
    exact Or.inl ⟨rfl, habsent hchain.eq_nil⟩
  | cons deed earlier =>
    rw [hsettled] at hchain
    cases hrecord : deed.record? with
    | none =>
      refine Or.inl ⟨hrecord, ?_⟩
      by_cases hthere : table.chainOf row = []
      · exact habsent hthere
      · obtain ⟨s, hnote⟩ := h.deleted hsettled hrecord hthere
        obtain ⟨_, _, _, _, hat⟩ := shows.notes hnote
        have hdue := committedAt_le_horizon attests sound idle hat
        rw [hreclaimed.rows, if_pos (mem_purging.mpr ⟨s, hnote, hdue⟩)]
    | some record =>
      obtain ⟨v, older, hthere⟩ := hchain.exists_newest fun hnone => by
        rw [hrecord] at hnone
        cases hnone
      have hrow := rows_eq (by rw [hthere]; exact List.cons_ne_nil _ _ : table.chainOf row ≠ [])
      rw [hthere] at hchain hrow
      obtain ⟨hsame, hcreated, hmarked⟩ := hchain.newest_record hrecord
      have hkept : row ∉ table.purging l.horizon := by
        intro hpurged
        obtain ⟨s, hnote, _⟩ := mem_purging.mp hpurged
        obtain ⟨_, _, hlast, hnone, _⟩ := shows.notes hnote
        rw [hsettled] at hlast
        rw [← (List.cons.inj hlast).1, hrecord] at hnone
        cases hnone
      have hseen : l.committedBy v.created.transaction l.horizon = true := by
        obtain ⟨s, hs⟩ := Chronicle.committedAt_of_mem_settled sound
          (by rw [hsettled]; exact List.mem_cons_self : deed ∈ c.settled tid row)
        rw [hcreated]
        show l.committedBy deed.transaction l.horizon = true
        rw [attests.committedBy hs (Int.le_refl _)]
        exact decide_eq_true (committedAt_le_horizon attests sound idle hs)
      obtain ⟨w, hw, hrecordw, hmarkedw⟩ := truncated_eq_singleton depth hmarked hseen
      refine Or.inr ⟨w, ?_, ?_, hmarkedw⟩
      · rw [hrecordw, hsame]
        exact hrecord
      · rw [hreclaimed.rows, if_neg hkept, hrow, Option.map_some, hw]

include shows ok lok wok attests sound idle in
/-- All notes have been dealt with. -/
theorem notes_of_idle (h : Accounted l work c tid table) :
    (table.reclaim l).1.pendingDeletes = [] ∧ (table.reclaim l).1.outdated = [] := by
  obtain ⟨hdeletes, hwaiting⟩ := ok.reclaim_waiting lok wok
  refine ⟨?_, ?_⟩
  · rw [hdeletes]
    refine List.filter_eq_nil_iff.mpr fun note hnote => ?_
    obtain ⟨_, _, _, _, hat⟩ := shows.notes hnote
    rw [decide_eq_true (committedAt_le_horizon attests sound idle hat)]
    exact Bool.false_ne_true
  · rw [hwaiting]
    refine List.filter_eq_nil_iff.mpr fun note hnote => ?_
    obtain ⟨_, _, hat⟩ := h.outdated note hnote
    rw [decide_eq_true (committedAt_le_horizon attests sound idle hat)]
    exact Bool.false_ne_true

include h shows ok lok wok attests worked sound idle in
/-- An entry that is left is that of what was committed last of its row. -/
theorem Accounted.entry_of_idle {i : Nat} {entry : Bytes}
    (hbears : (table.reclaim l).1.Bears i entry row) : ∃ index key,
      (table.reclaim l).1.indexes[i]? = some index ∧
        Deed.LastGives (c.settled tid row) index.spec key ∧ entry = Key.entry key row := by
  have hunhindered : table.Unhindered l := ok.unhindered fun id row => by
    rw [wok.log_eq_nil idle]
    rfl
  cases (h.reclaimed shows ok lok wok attests worked sound hunhindered).covered hbears with
  | pending bound =>
    rw [wok.log_eq_nil idle] at bound
    cases bound
  | last here gives eq =>
    obtain ⟨index, hindex, rfl⟩ := spec?_eq_some.mp here
    exact ⟨index, _, hindex, gives, eq⟩
  | outdated note =>
    rw [(notes_of_idle shows ok lok wok attests sound idle h).2] at note
    cases note

include h shows ok lok wok attests worked sound idle in
/-- Reclaiming a table without history while nobody is running leaves what was committed last, and
nothing else. -/
theorem Accounted.spotless (depth : table.maxVersionHistory = 0) :
    (table.reclaim l).1.Spotless c tid := by
  obtain ⟨_, _, hok⟩ := ok.reclaim lok wok
  obtain ⟨hdeletes, houtdated⟩ := notes_of_idle shows ok lok wok attests sound idle h
  have hrow := h.row_of_idle shows ok lok wok attests worked sound idle depth
  have hchain : ∀ {row : RowHandle} {v : Version}, v ∈ (table.reclaim l).1.chainOf row →
      (table.reclaim l).1.chainOf row = [v] ∧ v.isMarked = false ∧
        (c.settled tid row).head?.bind (·.record?) = some v.record := by
    intro row v hv
    rcases hrow row with ⟨_, hnone⟩ | ⟨w, hlast, hthere, hmarked⟩
    · rw [chainOf_of_absent hnone] at hv
      cases hv
    · rw [chainOf_eq hthere] at hv ⊢
      cases List.mem_singleton.mp hv
      exact ⟨rfl, hmarked, hlast⟩
  refine ⟨fun row => ?rows, fun row v hv => (hchain hv).2.1, hok.primary,
    fun {i index} hindex row v hv => ?entered,
    fun {i index} hindex row hnil entry hget => ?unlinked, hdeletes, houtdated⟩
  case rows =>
    rcases hrow row with ⟨hlast, hnone⟩ | ⟨v, hlast, hthere, _⟩
    · rw [hlast, hnone]
      rfl
    · rw [hlast, hthere]
      rfl
  case entered =>
    obtain ⟨hsingle, _, hlast⟩ := hchain hv
    obtain ⟨key, hkey⟩ := (hok.indexes hindex).keyed hv
    refine ⟨key, hkey, fun entry => ⟨fun hget => ?_, ?_⟩⟩
    · obtain ⟨found, own, hfound, ⟨deed, hdeed, record, hrecord, hown⟩, hentry⟩ :=
        h.entry_of_idle shows ok lok wok attests worked sound idle ⟨index, hindex, hget⟩
      cases hindex.symm.trans hfound
      -- The last record and the last deed are the same.
      obtain ⟨first, hfirst, hgiven⟩ := Option.bind_eq_some_iff.mp hlast
      obtain ⟨earlier, hsettled⟩ := List.head?_eq_some_iff.mp hfirst
      have hnewest : (c.settled tid row).find? (·.record?.isSome) = some first := by
        rw [hsettled]
        exact List.find?_cons_of_pos (by rw [hgiven]; rfl)
      cases hnewest.symm.trans hdeed
      cases hgiven.symm.trans hrecord
      cases hkey.1.symm.trans hown
      exact hentry
    · rintro rfl
      have hreach : v ∈ reach l.prune.1 l.prune.1.horizon ((table.reclaim l).1.chainOf row) := by
        rw [hsingle]
        exact newest_mem_reach _ _ _ _
      exact ((hok.indexes hindex).complete hreach hkey).resolve_right (by simp)
  case unlinked =>
    have hunhindered : table.Unhindered l := ok.unhindered fun id row => by
      rw [wok.log_eq_nil idle]
      rfl
    exact (h.reclaimed shows ok lok wok attests worked sound hunhindered).linked
      ⟨index, hindex, hget⟩ hnil

end Idle

/-! ## 3. Spotless tables -/

namespace Spotless

variable (spotless : table.Spotless c tid)
include spotless

/-- Indexes of the same keys have the same entries. -/
theorem same_entries {i j : Nat} {index other : Index} (hindex : table.indexes[i]? = some index)
    (hother : table.indexes[j]? = some other) (same : other.spec.keyOf = index.spec.keyOf)
    (entry : Bytes) (row : RowHandle) :
    index.trie.get? entry = some row ↔ other.trie.get? entry = some row := by
  cases hchain : table.chainOf row with
  | nil =>
    have hnone := spotless.unlinked hindex row hchain entry
    have hnone' := spotless.unlinked hother row hchain entry
    simp only [hnone, hnone']
  | cons v older =>
    have hv : v ∈ table.chainOf row := by
      rw [hchain]
      exact List.mem_cons_self
    obtain ⟨key, hkey, hentries⟩ := spotless.entered hindex row v hv
    obtain ⟨key', hkey', hentries'⟩ := spotless.entered hother row v hv
    have heq := hkey'.1
    rw [same, hkey.1] at heq
    cases heq
    rw [hentries, hentries']

/-- An index may be built at any time. -/
theorem allLast (spec : KeySpec) : table.AllLast c tid spec where
  last {row v key} hv hkey := by
    have hrow := spotless.rows row
    have hthere : table.rows[row]? = some (table.chainOf row) := rows_eq (List.ne_nil_of_mem hv)
    rw [hthere, Option.map_some] at hrow
    obtain ⟨record, hlast, hrecords⟩ := Option.map_eq_some_iff.mp hrow.symm
    obtain ⟨deed, hdeed, hgiven⟩ := Option.bind_eq_some_iff.mp hlast
    obtain ⟨earlier, hsettled⟩ := List.head?_eq_some_iff.mp hdeed
    have hrecord : v.record = record := by
      have hin := List.mem_map_of_mem (f := (·.record)) hv
      rw [← hrecords] at hin
      exact List.mem_singleton.mp hin
    refine ⟨deed, ?_, record, hgiven, hrecord ▸ hkey.1⟩
    rw [hsettled]
    exact List.find?_cons_of_pos (by rw [hgiven]; rfl)

end Spotless

end Table
end SnapshotStore
