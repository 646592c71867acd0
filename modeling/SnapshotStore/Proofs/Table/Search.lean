import Mathlib
import SnapshotStore.Table.Read
import SnapshotStore.Proofs.Table.Ok
import SnapshotStore.Proofs.Trie.Scan

/-!
# Searching an index

Every version that a view may see has its entry in every index, and every entry is one of a key and a
row. So a search that goes through the entries in order and looks at the row behind each of them finds
the first row that the view sees with a key in the range, wherever outdated entries lie in between
(`Foremost`). Nothing can fail on the way, because the keys of all versions can be built.
-/

namespace SnapshotStore

namespace Table

/-- The view sees the row as `ref` says, with a record of that key. -/
structure Visible (table : Table) (l : Ledger) (view : View) (spec : KeySpec) (key : Bytes)
    (ref : RowRef) : Prop where
  read : Chain.read l view (table.chainOf ref.handle) = .visible ref.version ref.older
  keyed : spec.keyOf ref.record = .ok key

/-- What has been found is the first of the visible rows that have an entry among these, in the order
of a scan. -/
def Foremost (table : Table) (l : Ledger) (view : View) (spec : KeySpec) (direction : Direction)
    (among : Bytes → Prop) : Option RowRef → Prop
  | none => ∀ key ref, table.Visible l view spec key ref → ¬ among (Key.entry key ref.handle)
  | some found =>
    ∃ key, table.Visible l view spec key found ∧ among (Key.entry key found.handle) ∧
      ∀ key' ref, table.Visible l view spec key' ref → among (Key.entry key' ref.handle) →
        ref = found ∨
          direction.After (Key.entry key found.handle) (Key.entry key' ref.handle)

section Visible

variable {table : Table} {l : Ledger} {view : View} {spec : KeySpec} {key key' : Bytes}
  {ref ref' : RowRef} {direction : Direction} {among among' : Bytes → Prop}

/-- A row is seen in one way. -/
theorem Visible.unique (h : table.Visible l view spec key ref)
    (h' : table.Visible l view spec key' ref') (same : ref.handle = ref'.handle) :
    key = key' ∧ ref = ref' := by
  have hread := h.read.symm.trans ((congrArg _ (congrArg _ same)).trans h'.read)
  obtain ⟨handle, version, older⟩ := ref
  obtain ⟨handle', version', older'⟩ := ref'
  cases same
  cases hread
  exact ⟨Except.ok.inj (h.keyed.symm.trans h'.keyed), rfl⟩

/-- It matters only which entries of visible rows a search is among. -/
theorem Foremost.congr {found? : Option RowRef}
    (h : table.Foremost l view spec direction among found?)
    (same : ∀ key ref, table.Visible l view spec key ref →
      (among (Key.entry key ref.handle) ↔ among' (Key.entry key ref.handle))) :
    table.Foremost l view spec direction among' found? := by
  cases found? with
  | none => exact fun key ref hvisible hin => h key ref hvisible ((same key ref hvisible).mpr hin)
  | some found =>
    obtain ⟨key, hvisible, hin, hfirst⟩ := h
    exact ⟨key, hvisible, (same key found hvisible).mp hin, fun key' ref href hin' =>
      hfirst key' ref href ((same key' ref href).mpr hin')⟩

end Visible

section Search

variable {table : Table} {l : Ledger} {view : View} {tid : TableId} {index : Index}
  (ok : IndexOk l table tid [] index) (viewing : Chain.Viewing l view)
include ok viewing

/-! ## 1. One entry -/

/-- A visible row has its entry in the index. -/
theorem Visible.bound {key : Bytes} {ref : RowRef}
    (h : table.Visible l view index.spec key ref) :
    index.trie.get? (Key.entry key ref.handle) = some ref.handle := by
  have hreach := Chain.mem_reach_of_read viewing h.read
  obtain ⟨key', hkeyed⟩ := ok.keyed (Chain.mem_of_mem_reach hreach)
  have heq : key' = key := Except.ok.inj (hkeyed.1.symm.trans h.keyed)
  rw [heq] at hkeyed
  rcases ok.complete hreach hkeyed with hbound | ⟨_, _, hin⟩
  · exact hbound
  · cases hin

/-- An entry shows its row if the row is visible with the key of the entry. -/
theorem visibleRow_spec (key : Bytes) (row : RowHandle) : ∃ found?,
    table.visibleRow l view index.spec (Key.entry key row) row = .ok found? ∧
      ∀ ref, found? = some ref ↔ ref.handle = row ∧ table.Visible l view index.spec key ref := by
  have hinvisible : (∀ v older, Chain.read l view (table.chainOf row) ≠ .visible v older) →
      ∀ ref, (none : Option RowRef) = some ref ↔
        ref.handle = row ∧ table.Visible l view index.spec key ref := by
    intro hnone ref
    constructor
    · intro h
      cases h
    · rintro ⟨hrow, hvisible⟩
      have hread := hvisible.read
      rw [hrow] at hread
      exact absurd hread (hnone _ _)
  rw [visibleRow]
  cases hchain : table.rows[row]? with
  | none =>
    refine ⟨none, rfl, hinvisible fun v older h => ?_⟩
    rw [chainOf_of_absent hchain] at h
    cases h
  | some chain =>
    have hof := chainOf_eq hchain
    dsimp only
    cases hread : Chain.read l view chain with
    | deleted => exact ⟨none, rfl, hinvisible fun v older h => by rw [hof, hread] at h; cases h⟩
    | invisible => exact ⟨none, rfl, hinvisible fun v older h => by rw [hof, hread] at h; cases h⟩
    | visible version older =>
      rw [← hof] at hread
      obtain ⟨key', hkeyed⟩ := ok.keyed (Chain.mem_of_mem_reach (Chain.mem_reach_of_read viewing hread))
      dsimp only
      rw [hkeyed.carries_entry]
      by_cases heq : key' = key
      · refine ⟨some ⟨row, version, older⟩, by rw [decide_eq_true heq]; rfl, fun ref => ?_⟩
        constructor
        · intro h
          cases h
          exact ⟨rfl, hread, by rw [← heq]; exact hkeyed.1⟩
        · rintro ⟨hrow, hvisible⟩
          have hshown : table.Visible l view index.spec key' ⟨row, version, older⟩ := ⟨hread, hkeyed.1⟩
          rw [(hvisible.unique hshown hrow).2]
      · refine ⟨none, by rw [decide_eq_false heq]; rfl, fun ref => ?_⟩
        constructor
        · intro h
          cases h
        · rintro ⟨hrow, hvisible⟩
          have hshown : table.Visible l view index.spec key' ⟨row, version, older⟩ :=
            ⟨hread, hkeyed.1⟩
          exact absurd (hvisible.unique hshown hrow).1.symm heq

/-- An entry that shows nothing is passed over. -/
theorem Foremost.pass {direction : Direction} {among : Bytes → Prop} {key : Bytes}
    {row : RowHandle} {found? : Option RowRef}
    (hidden : ∀ ref, ¬ (ref.handle = row ∧ table.Visible l view index.spec key ref))
    (h : table.Foremost l view index.spec direction
      (fun entry => among entry ∧ direction.After (Key.entry key row) entry) found?)
    (first : ∀ entry, among entry → (index.trie.get? entry).isSome = true →
      entry = Key.entry key row ∨ direction.After (Key.entry key row) entry) :
    table.Foremost l view index.spec direction among found? := by
  refine h.congr fun key' ref hvisible => ⟨And.left, fun hin => ⟨hin, ?_⟩⟩
  rcases first _ hin (by rw [hvisible.bound ok viewing]; rfl) with heq | hafter
  · obtain ⟨rfl, hrow⟩ := Key.entry_injective heq
    exact absurd ⟨hrow, hvisible⟩ (hidden ref)
  · exact hafter

/-- An entry that shows its row ends the search. -/
theorem foremost_of_first {direction : Direction} {among : Bytes → Prop} {key : Bytes}
    {found : RowRef} (hvisible : table.Visible l view index.spec key found)
    (hin : among (Key.entry key found.handle))
    (first : ∀ entry, among entry → (index.trie.get? entry).isSome = true →
      entry = Key.entry key found.handle ∨ direction.After (Key.entry key found.handle) entry) :
    table.Foremost l view index.spec direction among (some found) := by
  refine ⟨key, hvisible, hin, fun key' ref href hin' => ?_⟩
  refine (first _ hin' (by rw [href.bound ok viewing]; rfl)).imp_left fun heq => ?_
  exact (href.unique hvisible (Key.entry_injective heq).2).2

/-! ## 2. Lookups -/

/-- Looking at sorted entries one after another finds the first row that one of them shows. -/
theorem findSomeM?_visibleRow {entries : List (Bytes × RowHandle)}
    (keyed : ∀ entry ∈ entries, ∃ key, entry.1 = Key.entry key entry.2)
    (sorted : entries.Pairwise fun a b => Bytes.order a.1 b.1 = .lt) : ∃ found?,
    entries.findSomeM? (fun (entry, row) => table.visibleRow l view index.spec entry row) =
        .ok found? ∧
      table.Foremost l view index.spec .forward (fun entry => ∃ row, (entry, row) ∈ entries)
        found? := by
  -- An entry whose row is not visible under its key is passed over, and those left come after it.
  induction entries with
  | nil =>
    refine ⟨none, rfl, fun _ _ _ hin => ?_⟩
    obtain ⟨_, hin⟩ := hin
    cases hin
  | cons entry entries ih =>
    obtain ⟨stored, row⟩ := entry
    obtain ⟨key, hstored⟩ : ∃ key, stored = Key.entry key row := keyed _ List.mem_cons_self
    subst hstored
    obtain ⟨hfirst, hsorted⟩ := List.pairwise_cons.mp sorted
    have hafter : ∀ other, (∃ row', (other, row') ∈ (Key.entry key row, row) :: entries) →
        (index.trie.get? other).isSome = true →
        other = Key.entry key row ∨ Direction.forward.After (Key.entry key row) other := by
      rintro other ⟨row', hin⟩ _
      rcases List.mem_cons.mp hin with heq | hin
      · exact Or.inl (congrArg Prod.fst heq)
      · exact Or.inr (hfirst _ hin)
    obtain ⟨here?, hhere, hiff⟩ := visibleRow_spec ok viewing key row
    rw [List.findSomeM?_cons]
    dsimp only
    rw [hhere]
    cases here? with
    | some ref =>
      obtain ⟨rfl, hvisible⟩ := (hiff ref).mp rfl
      exact ⟨some ref, rfl, foremost_of_first ok viewing hvisible ⟨_, List.mem_cons_self⟩ hafter⟩
    | none =>
      obtain ⟨found?, hfound, hforemost⟩ :=
        ih (fun e he => keyed e (List.mem_cons_of_mem _ he)) hsorted
      refine ⟨found?, hfound, Foremost.pass ok viewing
        (fun ref h => Option.some_ne_none ref ((hiff ref).mpr h).symm)
        (hforemost.congr fun key' ref _ => ?_) hafter⟩
      constructor
      · rintro ⟨row', hin⟩
        exact ⟨⟨row', List.mem_cons_of_mem _ hin⟩, hfirst _ hin⟩
      · rintro ⟨⟨row', hin⟩, hpast⟩
        rcases List.mem_cons.mp hin with heq | hin
        · exact absurd (congrArg Prod.fst heq) hpast.ne
        · exact ⟨row', hin⟩

/-- A lookup finds the first visible row of the key. -/
theorem lookupRow_spec {key : Bytes} (short : key.length ≤ table.maxKeyLength) : ∃ found?,
    table.lookupRow l view index key = .ok found? ∧
      table.Foremost l view index.spec .forward (Key.encode key <+: ·) found? := by
  obtain ⟨hmem, hsorted⟩ := Trie.entriesBeginning_spec ok.tree (Key.encode key)
  have hentry : ∀ entry ∈ index.trie.entriesBeginning (Key.encode key),
      entry.1 = Key.entry key entry.2 := by
    intro entry hin
    obtain ⟨hbegins, hbound⟩ := (hmem entry).mp hin
    obtain ⟨key', hkey'⟩ := ok.sound hbound
    rw [hkey', Key.encode_isPrefix_entry] at hbegins
    rw [hkey', hbegins]
  have hfilter : (index.trie.entriesBeginning (Key.encode key)).filter (fun (entry, _) =>
      entry.length == (Key.encode key).length + RowHandle.width) =
      index.trie.entriesBeginning (Key.encode key) := by
    rw [List.filter_eq_self]
    intro entry hin
    have hlength := congrArg List.length (hentry entry hin)
    rw [Key.entry, List.length_append, RowHandle.length_toBytes] at hlength
    exact beq_iff_eq.mpr hlength
  rw [lookupRow, Key.lookup_of_le short, Fallible.ok_bind]
  dsimp only
  rw [hfilter]
  obtain ⟨found?, hfound, hforemost⟩ :=
    findSomeM?_visibleRow ok viewing (fun entry hin => ⟨key, hentry entry hin⟩) hsorted
  refine ⟨found?, hfound, hforemost.congr fun key' ref hvisible => ?_⟩
  constructor
  · rintro ⟨row, hin⟩
    exact ((hmem _).mp hin).1
  · exact fun hbegins => ⟨ref.handle, (hmem _).mpr ⟨hbegins, hvisible.bound ok viewing⟩⟩

end Search
end Table

/-! ## 3. Scans -/

namespace IndexScan

/-- The scan is open and rests on the entry of a row that it has returned. -/
structure RestsOn (scan : IndexScan) (trie : Trie) (front key : Bytes) (row : RowHandle) :
    Prop where
  sound : scan.cursor.Sound trie
  direction : scan.cursor.direction = scan.kind.direction
  beginning : scan.cursor.beginning = front
  on : scan.cursor.key = Key.entry key row
  open' : scan.cursor.exhausted = false
  taken : scan.pending = false
  unfinished : scan.finished = false

theorem advanceWithin_rest (index : Index) (table : Table) (l : Ledger) (view : View) (count : Nat)
    (scan : IndexScan) : (scan.advanceWithin index table l view count).1.table = scan.table ∧
      (scan.advanceWithin index table l view count).1.index = scan.index ∧
      (scan.advanceWithin index table l view count).1.kind = scan.kind := by
  induction count generalizing scan with
  | zero => exact ⟨rfl, rfl, rfl⟩
  | succ count ih =>
    rw [advanceWithin]
    dsimp only
    split
    · exact ⟨rfl, rfl, rfl⟩
    · split
      · exact ⟨rfl, rfl, rfl⟩
      · exact ⟨rfl, rfl, rfl⟩
      · exact ih _

open Table in
/-- A scan that goes on finds the first visible row among the entries ahead of it, and rests on its
entry; if there is none, the scan is at its end. -/
theorem advanceWithin_spec {table : Table} {l : Ledger} {view : View} {tid : TableId}
    {index : Index} (ok : IndexOk l table tid [] index) (viewing : Chain.Viewing l view)
    (count : Nat) (scan : IndexScan) (now : Trie.Cursor) {front : Bytes} {among : Bytes → Prop}
    (hnow : now = if scan.pending then scan.cursor else scan.cursor.next index.trie)
    (sound : now.Sound index.trie) (direction : now.direction = scan.kind.direction)
    (beginning : now.beginning = front)
    (finds : index.trie.Finds scan.kind.direction among now.current)
    (unfinished : scan.finished = false)
    (begins : ∀ a, among a → front <+: a)
    (onward : ∀ a b, among a → scan.kind.direction.After a b → front <+: b → among b)
    (some_left : 0 < count)
    (enough : ∀ entry row, now.current = some (entry, row) →
      index.trie.keysAhead scan.kind.direction entry + 1 < count) :
    ∃ found?, (scan.advanceWithin index table l view count).2 = .ok found? ∧
      table.Foremost l view index.spec scan.kind.direction among found? ∧
      (found? = none → (scan.advanceWithin index table l view count).1.finished = true) ∧
      ∀ ref, found? = some ref → ∃ key, table.Visible l view index.spec key ref ∧
        (scan.advanceWithin index table l view count).1.RestsOn index.trie front key ref.handle := by
  induction count generalizing scan among now with
  | zero => cases some_left
  | succ count ih =>
    rw [advanceWithin]
    dsimp only
    rw [← hnow]
    cases hcurrent : now.current with
    | none =>
      rw [hcurrent] at finds
      refine ⟨none, rfl, fun key ref hvisible hin => ?_, fun _ => rfl, fun _ h => by cases h⟩
      have hnone := finds _ hin
      rw [hvisible.bound ok viewing] at hnone
      cases hnone
    | some entry =>
      obtain ⟨stored, row⟩ := entry
      have hahead := enough stored row hcurrent
      rw [hcurrent] at finds
      obtain ⟨hin, hbound, hfirst⟩ := finds
      obtain ⟨key, rfl⟩ := ok.sound hbound
      have hkey : now.key = Key.entry key row := Trie.Cursor.eq_key_of_current hcurrent
      have hopen : now.exhausted = false := by
        rw [← Bool.not_eq_true, ← Trie.Cursor.current_eq_none_iff sound, hcurrent]
        exact Option.some_ne_none _
      obtain ⟨here?, hhere, hiff⟩ := visibleRow_spec ok viewing key row
      dsimp only
      rw [hhere]
      cases here? with
      | some ref =>
        obtain ⟨rfl, hvisible⟩ := (hiff ref).mp rfl
        refine ⟨some ref, rfl, foremost_of_first ok viewing hvisible hin hfirst,
          (fun h => by cases h), fun ref' heq => ?_⟩
        cases heq
        exact ⟨key, hvisible, sound, direction, beginning, hkey, hopen, rfl, unfinished⟩
      | none =>
        -- The entry is passed over; past it the same question is asked of fewer entries.
        have hmoved := Trie.Cursor.next_spec ok.tree sound hopen
        have hfinds := hmoved.finds
        rw [hkey, direction, beginning] at hfinds
        have hnext := ih { scan with cursor := now, pending := false } (now.next index.trie) rfl
          hmoved.sound (hmoved.direction.trans direction) (hmoved.beginning.trans beginning) hfinds
          unfinished (fun _ h => h.2)
          (fun a b ha hab hb => ⟨ha.1.trans hab, hb⟩) (by omega) fun entry' row' hcurrent' => by
            rw [hcurrent'] at hfinds
            have hless := Trie.keysAhead_lt ok.tree hfinds.1.1 (by rw [hfinds.2.1]; rfl)
            show index.trie.keysAhead scan.kind.direction entry' + 1 < count
            omega
        obtain ⟨found?, hfound, hforemost, hend, hrests⟩ := hnext
        refine ⟨found?, hfound, Foremost.pass ok viewing
        (fun ref h => Option.some_ne_none ref ((hiff ref).mpr h).symm)
          (hforemost.congr fun key' ref _ => ?_) hfirst, hend, hrests⟩
        constructor
        · rintro ⟨hafter, hbegins⟩
          exact ⟨onward _ _ hin hafter hbegins, hafter⟩
        · rintro ⟨hin', hafter⟩
          exact ⟨hafter, begins _ hin'⟩

end IndexScan
end SnapshotStore
