import Mathlib
import SnapshotStore.Proofs.Service.TableScans
import SnapshotStore.Proofs.Twins.Operations

/-!
# Scans over tables that differ in dead rows

Reclamation takes rows away that nobody sees, so of two scans over the same table in two stores one may
come to rows that the other never meets. Whoever asks again at such a row gets from both the first row
that there is to see past the place (`TableScan.Stands.seek`), and then both scans rest on the same row.
Where a scan stands is a number, up to which the rows have been dealt with, or the end of the table
(`TableScan.Stands`). It is the same number in both stores, though the cursors rest on different entries
before the first row has been asked for.
-/

namespace SnapshotStore

namespace TableScanStep

/-- The step of a scan that stops at rows the reader sees only. -/
def ofOption : Option Table.RowRef → TableScanStep
  | some ref => .row ref
  | none => .endOfTable

/-- The reader does not see the row that the scan has come to. -/
def passesOver : TableScanStep → Bool
  | .deleted | .invisible => true
  | .row _ | .endOfTable => false

/-- The steps stop at the same row, or both at the end. -/
inductive Alike : TableScanStep → TableScanStep → Prop
  | endOfTable : Alike .endOfTable .endOfTable
  | row {ref ref' : Table.RowRef} (h : ref.SameRow ref') : Alike (.row ref) (.row ref')

end TableScanStep

namespace Table

/-- The first row past a place that the view reads, in handle order. -/
def NextRow (table : Table) (l : Ledger) (view : View) (passed : Nat) : Option RowRef → Prop
  | none => ∀ row : RowHandle, passed < row.val →
      (Chain.read l view (table.chainOf row)).record? = none
  | some ref => passed < ref.handle.val ∧
      Chain.read l view (table.chainOf ref.handle) = .visible ref.version ref.older ∧
      ∀ row : RowHandle, passed < row.val → row.val < ref.handle.val →
        (Chain.read l view (table.chainOf row)).record? = none

variable {table table' : Table} {l l' : Ledger} {view : View}

/-- The rows up to another place may be passed if none of them is read. -/
theorem NextRow.pass {passed further : Nat} {found? : Option RowRef}
    (next : table.NextRow l view further found?) (ahead : passed ≤ further)
    (unread : ∀ row : RowHandle, passed < row.val → row.val ≤ further →
      (Chain.read l view (table.chainOf row)).record? = none) :
    table.NextRow l view passed found? := by
  cases found? with
  | none =>
    intro row hrow
    rcases Nat.lt_or_ge further row.val with hlt | hge
    · exact next row hlt
    · exact unread row hrow hge
  | some ref =>
    obtain ⟨hpast, hread, hfirst⟩ := next
    refine ⟨Nat.lt_of_le_of_lt ahead hpast, hread, fun row hrow hbefore => ?_⟩
    rcases Nat.lt_or_ge further row.val with hlt | hge
    · exact hfirst row hlt hbefore
    · exact unread row hrow hge

/-- Where the same records are read, the next row is the same. -/
theorem SameSight.nextRow (sight : SameSight view l table l' table') {passed : Nat}
    {found? found?' : Option RowRef} (next : table.NextRow l view passed found?)
    (next' : table'.NextRow l' view passed found?') :
    found?.map (·.handle) = found?'.map (·.handle) ∧
      TableScanStep.Alike (.ofOption found?) (.ofOption found?') := by
  have hreads : ∀ {t : Table} {l : Ledger} {ref : RowRef},
      Chain.read l view (t.chainOf ref.handle) = .visible ref.version ref.older →
        (Chain.read l view (t.chainOf ref.handle)).record? = some ref.record := by
    intro t l ref h
    rw [h]
    rfl
  cases found? with
  | none =>
    cases found?' with
    | none => exact ⟨rfl, .endOfTable⟩
    | some ref' =>
      obtain ⟨hpast', hread', _⟩ := next'
      have hnone := next ref'.handle hpast'
      rw [sight, hreads hread'] at hnone
      cases hnone
  | some ref =>
    obtain ⟨hpast, hread, hfirst⟩ := next
    cases found?' with
    | none =>
      have hnone := next' ref.handle hpast
      rw [← sight, hreads hread] at hnone
      cases hnone
    | some ref' =>
      obtain ⟨hpast', hread', hfirst'⟩ := next'
      have hhandle : ref.handle = ref'.handle := by
        refine RowHandle.ext (Nat.le_antisymm (Nat.le_of_not_lt fun hlt => ?_)
          (Nat.le_of_not_lt fun hlt => ?_))
        · have hnone := hfirst ref'.handle hpast' hlt
          rw [sight, hreads hread'] at hnone
          cases hnone
        · have hnone := hfirst' ref.handle hpast hlt
          rw [← sight, hreads hread] at hnone
          cases hnone
      refine ⟨congrArg some hhandle, .row ⟨hhandle, ?_⟩⟩
      have hrecord := sight ref.handle
      rw [hreads hread, hhandle, hreads hread'] at hrecord
      exact Option.some.inj hrecord

end Table

/-- At a row the scan passes over it, or shows the version that the view reads. -/
theorem Table.stepAt_cases (table : Table) (l : Ledger) (view : View) (row : RowHandle) :
    (table.stepAt l view row).passesOver = true ∧
        (Chain.read l view (table.chainOf row)).record? = none ∨
      ∃ version older, Chain.read l view (table.chainOf row) = .visible version older ∧
        table.stepAt l view row = .row ⟨row, version, older⟩ := by
  rw [stepAt]
  cases hrow : table.rows[row]? with
  | none =>
    rw [chainOf_of_absent hrow]
    exact Or.inl ⟨rfl, rfl⟩
  | some chain =>
    rw [chainOf_eq hrow]
    dsimp only
    cases Chain.read l view chain with
    | visible version older => exact Or.inr ⟨version, older, rfl, rfl⟩
    | deleted => exact Or.inl ⟨rfl, rfl⟩
    | invisible => exact Or.inl ⟨rfl, rfl⟩

/-! ## 1. Where a scan stands -/

/-- The cursor rests on a row of the primary structure. -/
structure Trie.Cursor.On (cursor : Cursor) (trie : Trie) (row : RowHandle) : Prop where
  sound : cursor.Sound trie
  direction : cursor.direction = .forward
  beginning : cursor.beginning = []
  current : cursor.current = some (row.toBytes, row)

/-- A scan stands past the rows up to a number, or at the end of the table. -/
inductive TableScan.Stands (table : Table) : TableScan → Option Nat → Prop
  /-- The end has been reported. -/
  | ended {scan : TableScan} (finished : scan.finished = true) : Stands table scan none
  /-- There was no row when the scan was opened. -/
  | empty {cursor : Trie.Cursor} (ends : cursor.current = none) :
    Stands table ⟨cursor, true, false⟩ none
  /-- No row has been asked for. All that have come since the scan was opened lie ahead. -/
  | opened {cursor : Trie.Cursor} {row : RowHandle} (on : cursor.On table.primary row)
    (known : row.val < table.nextHandle)
    (least : ∀ other, table.chainOf other ≠ [] → row.val ≤ other.val) :
    Stands table ⟨cursor, true, false⟩ (some 0)
  /-- The scan has come to a row. -/
  | past {cursor : Trie.Cursor} {row : RowHandle} (on : cursor.On table.primary row) :
    Stands table ⟨cursor, false, false⟩ (some row.val)

namespace TableScan.Stands

variable {table table' : Table} {scan : TableScan} {passed? : Option Nat}

/-- Whatever happens to the table, the scan stands where it did. -/
theorem mono (stands : Stands table scan passed?) (extends' : table.Extends table') :
    Stands table' scan passed? := by
  have hon : ∀ {cursor : Trie.Cursor} {row : RowHandle}, cursor.On table.primary row →
      cursor.On table'.primary row := fun on => { on with sound := on.sound.mono extends'.primary }
  cases stands with
  | ended finished => exact .ended finished
  | empty ends => exact .empty ends
  | opened on known least =>
    refine .opened (hon on) (Nat.lt_of_lt_of_le known extends'.nextHandle) fun other hother => ?_
    rcases extends'.born hother with hold | hnew
    · exact least other hold
    · exact Nat.le_of_lt (Nat.lt_of_lt_of_le known hnew)
  | past on => exact .past (hon on)

/-- A scan at the end of the table stays there. -/
theorem advance_none (stands : Stands table scan none) (l : Ledger) (view : View) :
    (scan.advance table l view).2 = .endOfTable ∧
      Stands table (scan.advance table l view).1 none := by
  rw [advance]
  cases stands with
  | ended finished =>
    rw [if_pos finished]
    exact ⟨rfl, .ended finished⟩
  | empty ends =>
    rw [if_neg Bool.false_ne_true]
    dsimp only
    rw [if_pos rfl, ends]
    exact ⟨rfl, .ended rfl⟩

/-- A scan steps to the row that its cursor comes to. -/
theorem advance_at {cursor moved : Trie.Cursor} {pending : Bool} {key : Bytes} {row : RowHandle}
    (hmoved : (if pending = true then cursor else cursor.next table.primary) = moved)
    (hcurrent : moved.current = some (key, row)) {l : Ledger} {view : View} :
    TableScan.advance ⟨cursor, pending, false⟩ table l view =
      (⟨moved, false, false⟩, table.stepAt l view row) := by
  rw [advance, if_neg Bool.false_ne_true]
  dsimp only
  rw [hmoved, hcurrent, Table.stepAt]
  dsimp only
  cases table.rows[row]? with
  | none => rfl
  | some chain =>
    dsimp only
    cases Chain.read l view chain <;> rfl

variable {l : Ledger} {work : Work} {tid : TableId} (ok : Table.Ok l work tid [] table)
include ok

/-- The entries of the primary structure are the rows. -/
theorem get?_primary (row : RowHandle) :
    (table.primary.get? row.toBytes).isSome = true ↔ table.chainOf row ≠ [] := by
  constructor
  · intro hsome
    obtain ⟨other, hother⟩ := Option.isSome_iff_exists.mp hsome
    obtain ⟨heq, hrow⟩ := ok.primary.mp hother
    rw [← RowHandle.toBytes_injective heq] at hrow
    exact ok.chainOf_ne_nil hrow
  · intro hne
    cases hrow : table.rows[row]? with
    | none => exact absurd (Table.chainOf_of_absent hrow) hne
    | some chain => rw [ok.primary.mpr ⟨rfl, by rw [hrow]; rfl⟩]; rfl

/-- What a cursor comes to past a row: the next row, or nothing if there are no more. -/
theorem next_on {cursor : Trie.Cursor} {row : RowHandle} (on : cursor.On table.primary row) :
    ((cursor.next table.primary).current = none ∧
      ∀ other : RowHandle, row.val < other.val → table.chainOf other = []) ∨
    ∃ found : RowHandle, (cursor.next table.primary).On table.primary found ∧
      row.val < found.val ∧ table.chainOf found ≠ [] ∧
      ∀ other : RowHandle, row.val < other.val → table.chainOf other ≠ [] →
        found.val ≤ other.val := by
  have hkey : cursor.key = row.toBytes := Trie.Cursor.eq_key_of_current on.current
  have hopen : cursor.exhausted = false := by
    rw [← Bool.not_eq_true, ← Trie.Cursor.current_eq_none_iff on.sound, on.current]
    exact Option.some_ne_none _
  obtain ⟨hsound, hdirection, hbeginning, hfinds, _⟩ :=
    Trie.Cursor.next_spec ok.primaryTree on.sound hopen
  rw [on.direction] at hfinds hdirection
  rw [on.beginning] at hfinds hbeginning
  have hafter : ∀ {x y : RowHandle}, Direction.forward.After x.toBytes y.toBytes ↔ x.val < y.val := by
    intro x y
    rw [Direction.After, RowHandle.order_toBytes]
    exact Nat.compare_eq_lt
  rw [hkey] at hfinds
  cases hcurrent : (cursor.next table.primary).current with
  | none =>
    rw [hcurrent] at hfinds
    refine Or.inl ⟨rfl, fun other hlt => ?_⟩
    by_contra hne
    have hsome := (get?_primary ok other).mpr hne
    rw [hfinds other.toBytes ⟨hafter.mpr hlt, List.nil_prefix⟩] at hsome
    cases hsome
  | some entry =>
    obtain ⟨key, found⟩ := entry
    rw [hcurrent] at hfinds
    obtain ⟨⟨hpast, _⟩, hbound, hfirst⟩ := hfinds
    obtain ⟨rfl, hrow⟩ := ok.primary.mp hbound
    refine Or.inr ⟨found, ⟨hsound, hdirection, hbeginning, hcurrent⟩, hafter.mp hpast,
      ok.chainOf_ne_nil hrow, fun other hlt hne => ?_⟩
    rcases hfirst other.toBytes ⟨hafter.mpr hlt, List.nil_prefix⟩
      ((get?_primary ok other).mpr hne) with heq | hlater
    · rw [RowHandle.toBytes_injective heq]
    · exact Nat.le_of_lt (hafter.mp hlater)

/-- A scan that has just been opened stands before the first row, or at the end if there is none. -/
theorem first : ∃ passed?, Stands table (.first table) passed? ∧
    (passed? = none ∧ (∀ row, table.chainOf row = []) ∨
      passed? = some 0 ∧ ∃ row, table.chainOf row ≠ []) := by
  have hopened : Trie.Cursor.Moved { direction := .forward, beginning := [] } table.primary
      (fun _ => True) (table.primary.scan [] true .forward) :=
    Trie.scanBeginning_spec ok.primaryTree []
  obtain ⟨hsound, hdirection, hbeginning, hfinds, _⟩ := hopened
  have hscan : TableScan.first table = ⟨table.primary.scan [] true .forward, true, false⟩ := rfl
  rw [hscan]
  cases hcurrent : (table.primary.scan [] true .forward).current with
  | none =>
    rw [hcurrent] at hfinds
    refine ⟨none, .empty hcurrent, Or.inl ⟨rfl, fun row => ?_⟩⟩
    by_contra hne
    have hsome := (get?_primary ok row).mpr hne
    rw [hfinds row.toBytes ⟨trivial, List.nil_prefix⟩] at hsome
    cases hsome
  | some entry =>
    obtain ⟨key, row⟩ := entry
    rw [hcurrent] at hfinds
    obtain ⟨_, hbound, hleast⟩ := hfinds
    obtain ⟨rfl, hrow⟩ := ok.primary.mp hbound
    obtain ⟨chain, hchain⟩ := Option.isSome_iff_exists.mp hrow
    refine ⟨some 0, .opened ⟨hsound, hdirection, hbeginning, hcurrent⟩ (ok.handles hchain) ?_,
      Or.inr ⟨rfl, row, ok.chainOf_ne_nil hrow⟩⟩
    intro other hne
    rcases hleast other.toBytes ⟨trivial, List.nil_prefix⟩ ((get?_primary ok other).mpr hne)
      with heq | hlater
    · rw [RowHandle.toBytes_injective heq]
    · rw [Direction.After, RowHandle.order_toBytes] at hlater
      exact Nat.le_of_lt (Nat.compare_eq_lt.mp hlater)

/-- A step takes the scan to the next row there is. The row that it was opened on may be gone. -/
theorem advance_some {passed : Nat} (stands : Stands table scan (some passed)) (m : Ledger)
    (view : View) :
    ((scan.advance table m view).2 = .endOfTable ∧
      Stands table (scan.advance table m view).1 none ∧
      ∀ row : RowHandle, passed < row.val → table.chainOf row = []) ∨
    ∃ row : RowHandle, (scan.advance table m view).2 = table.stepAt m view row ∧
      Stands table (scan.advance table m view).1 (some row.val) ∧
      (scan.advance table m view).1.pending = false ∧ passed < row.val ∧
      (scan.pending = true ∨ table.chainOf row ≠ []) ∧
      ∀ other : RowHandle, passed < other.val → table.chainOf other ≠ [] → row.val ≤ other.val := by
  cases stands with
  | @opened cursor row on _ least =>
    rw [advance_at (if_pos rfl) on.current]
    exact Or.inr ⟨row, rfl, .past on, rfl, row.pos, Or.inl rfl, fun other _ => least other⟩
  | @past cursor row on =>
    rcases next_on ok on with ⟨hnone, hempty⟩ | ⟨found, on', hpast, hne, hleast⟩
    · rw [advance, if_neg Bool.false_ne_true]
      dsimp only
      rw [if_neg Bool.false_ne_true, hnone]
      exact Or.inl ⟨rfl, .ended rfl, hempty⟩
    · rw [advance_at (if_neg Bool.false_ne_true) on'.current]
      exact Or.inr ⟨found, rfl, .past on', rfl, hpast, Or.inr hne, hleast⟩

/-- Wherever a scan stands, it stands somewhere after a step. -/
theorem advance (stands : Stands table scan passed?) (m : Ledger) (view : View) :
    ∃ further?, Stands table (scan.advance table m view).1 further? := by
  cases passed? with
  | none => exact ⟨none, (stands.advance_none m view).2⟩
  | some passed =>
    rcases stands.advance_some ok m view with ⟨_, hstands, _⟩ | ⟨row, _, hstands, _⟩
    · exact ⟨none, hstands⟩
    · exact ⟨some row.val, hstands⟩

end TableScan.Stands

/-! ## 2. Asking again -/

/-- How many rows there are past a place. -/
def Table.rowsPast (table : Table) (passed : Nat) : Nat :=
  table.rows.keys.countP fun row => passed < row.val

namespace Table

variable {table : Table}

theorem rowsPast_le {passed further : Nat} (h : passed ≤ further) :
    table.rowsPast further ≤ table.rowsPast passed := by
  refine List.countP_mono_left fun row _ hrow => ?_
  exact decide_eq_true (Nat.lt_of_le_of_lt h (of_decide_eq_true hrow))

/-- Coming to a row leaves fewer. -/
theorem rowsPast_lt {passed : Nat} {row : RowHandle} (ahead : passed < row.val)
    (here : table.chainOf row ≠ []) : table.rowsPast row.val < table.rowsPast passed := by
  have hmem : row ∈ table.rows.keys := by
    rw [Std.ExtTreeMap.mem_keys, Std.ExtTreeMap.mem_iff_isSome_getElem?]
    cases hrow : table.rows[row]? with
    | none => exact absurd (chainOf_of_absent hrow) here
    | some chain => rfl
  have hmono : ∀ rows : List RowHandle, rows.countP (fun other => row.val < other.val) ≤
      rows.countP fun other => passed < other.val := by
    intro rows
    refine List.countP_mono_left fun other _ hother => ?_
    exact decide_eq_true (Nat.lt_trans ahead (of_decide_eq_true hother))
  obtain ⟨before, behind, hsplit⟩ := List.append_of_mem hmem
  rw [rowsPast, rowsPast, hsplit, List.countP_append, List.countP_append,
    List.countP_cons_of_neg (by simp), List.countP_cons_of_pos (by simpa using ahead)]
  have hbefore := hmono before
  have hbehind := hmono behind
  omega

/-- A scan that steps to a row has fewer steps ahead of it. -/
theorem stepsAhead_lt {passed : Nat} {row : RowHandle} {scan : TableScan}
    (ahead : passed < row.val) (counts : scan.pending = true ∨ table.chainOf row ≠ []) :
    table.rowsPast row.val < table.rowsPast passed + if scan.pending then 1 else 0 := by
  rcases counts with hpending | here
  · rw [if_pos hpending]
    exact Nat.lt_succ_of_le (rowsPast_le (Nat.le_of_lt ahead))
  · exact Nat.lt_of_lt_of_le (rowsPast_lt ahead here) (Nat.le_add_right _ _)

theorem rowsPast_le_size (table : Table) (passed : Nat) : table.rowsPast passed ≤ table.rows.size :=
  (List.countP_le_length).trans (Nat.le_of_eq Std.ExtTreeMap.length_keys)

end Table

/-- Goes on with a table scan past rows that the reader does not see, `count` of them at most. -/
def TableScan.seek (table : Table) (l : Ledger) (view : View) :
    (count : Nat) → TableScan → TableScan × TableScanStep
  | 0, scan => scan.advance table l view
  | count + 1, scan =>
    if (scan.advance table l view).2.passesOver then
      seek table l view count (scan.advance table l view).1
    else scan.advance table l view

/-- A scan that passes over enough rows stops at the next row that the reader sees. -/
theorem TableScan.Stands.seek {table : Table} {l : Ledger} {work : Work} {tid : TableId}
    (ok : Table.Ok l work tid [] table) (view : View) {count passed : Nat} {scan : TableScan}
    (stands : Stands table scan (some passed))
    (enough : table.rowsPast passed + (if scan.pending then 1 else 0) ≤ count) :
    ∃ found?, (scan.seek table l view count).2 = .ofOption found? ∧
      Stands table (scan.seek table l view count).1 (found?.map (·.handle.val)) ∧
      table.NextRow l view passed found? := by
  -- The count outlasts the rows that are ahead, one of which is gone with each that is passed over.
  induction count generalizing scan passed with
  | zero =>
    rw [TableScan.seek]
    rcases stands.advance_some ok l view with ⟨hend, hstands, hempty⟩ |
      ⟨row, _, _, _, hpast, hthere, _⟩
    · refine ⟨none, hend, hstands, fun row hrow => ?_⟩
      rw [hempty row hrow]
      rfl
    · have hless := Table.stepsAhead_lt hpast hthere
      exact absurd (Nat.lt_of_lt_of_le hless enough) (Nat.not_lt_zero _)
  | succ count ih =>
    rw [TableScan.seek]
    rcases stands.advance_some ok l view with ⟨hend, hstands, hempty⟩ |
      ⟨row, hstep, hstands, hpending, hpast, hthere, hleast⟩
    · rw [hend, TableScanStep.passesOver, if_neg Bool.false_ne_true]
      refine ⟨none, hend, hstands, fun row hrow => ?_⟩
      rw [hempty row hrow]
      rfl
    · have hbetween : ∀ other : RowHandle, passed < other.val → other.val < row.val →
          (Chain.read l view (table.chainOf other)).record? = none := by
        intro other hother hbefore
        by_contra hread
        refine absurd (hleast other hother fun hnil => hread ?_) (Nat.not_le_of_lt hbefore)
        rw [hnil]
        rfl
      rw [hstep]
      rcases table.stepAt_cases l view row with ⟨hover, hunread⟩ | ⟨version, older, hread, hshown⟩
      · rw [if_pos hover]
        have hless := Table.stepsAhead_lt hpast hthere
        obtain ⟨found?, hfound, hstands', hnext⟩ := ih hstands (by
          rw [hpending, if_neg Bool.false_ne_true]
          exact Nat.le_of_lt_succ (Nat.lt_of_lt_of_le hless enough))
        refine ⟨found?, hfound, hstands', hnext.pass (Nat.le_of_lt hpast) fun other hother hle => ?_⟩
        rcases Nat.lt_or_eq_of_le hle with hlt | heq
        · exact hbetween other hother hlt
        · rw [RowHandle.ext heq]
          exact hunread
      · rw [hshown, TableScanStep.passesOver, if_neg Bool.false_ne_true]
        exact ⟨some ⟨row, version, older⟩, hstep.trans hshown, hstands, hpast, hread, hbetween⟩

/-- A scan at the end of the table has nothing to pass over. -/
theorem TableScan.Stands.seek_none {table : Table} {scan : TableScan}
    (stands : Stands table scan none) (l : Ledger) (view : View) (count : Nat) :
    (scan.seek table l view count).2 = .endOfTable ∧
      Stands table (scan.seek table l view count).1 none := by
  have hend := stands.advance_none l view
  cases count with
  | zero => exact hend
  | succ count =>
    rw [TableScan.seek, hend.1, TableScanStep.passesOver, if_neg Bool.false_ne_true]
    exact hend

/-! ## 3. In two stores -/

/-- Two scans that stand at the same place stop at the same row, and stand at the same place again. -/
theorem Table.SameSight.seek {table table' : Table} {l l' : Ledger} {view : View}
    (sight : SameSight view l table l' table') {work work' : Work} {tid : TableId}
    (ok : Ok l work tid [] table) (ok' : Ok l' work' tid [] table') {scan scan' : TableScan}
    {passed? : Option Nat} (stands : scan.Stands table passed?)
    (stands' : scan'.Stands table' passed?) :
    TableScanStep.Alike (scan.seek table l view (table.rows.size + 1)).2
        (scan'.seek table' l' view (table'.rows.size + 1)).2 ∧
      ∃ further?, (scan.seek table l view (table.rows.size + 1)).1.Stands table further? ∧
        (scan'.seek table' l' view (table'.rows.size + 1)).1.Stands table' further? := by
  cases passed? with
  | none =>
    obtain ⟨hend, hstands⟩ := stands.seek_none l view (table.rows.size + 1)
    obtain ⟨hend', hstands'⟩ := stands'.seek_none l' view (table'.rows.size + 1)
    rw [hend, hend']
    exact ⟨.endOfTable, none, hstands, hstands'⟩
  | some passed =>
    have henough : ∀ (t : Table) (scan : TableScan),
        t.rowsPast passed + (if scan.pending then 1 else 0) ≤ t.rows.size + 1 := by
      intro t scan
      refine Nat.add_le_add (rowsPast_le_size t passed) ?_
      split <;> omega
    obtain ⟨found?, hfound, hstands, hnext⟩ := stands.seek ok view (henough table scan)
    obtain ⟨found?', hfound', hstands', hnext'⟩ := stands'.seek ok' view (henough table' scan')
    obtain ⟨hsame, halike⟩ := sight.nextRow hnext hnext'
    rw [hfound, hfound']
    refine ⟨halike, _, hstands, ?_⟩
    have hmap : ∀ found? : Option RowRef, found?.map (·.handle.val) =
        (found?.map (·.handle)).map RowHandle.val := fun found? => by rw [Option.map_map]; rfl
    rw [hmap, hsame, ← hmap]
    exact hstands'

namespace Store

/-- Goes on with a table scan to the next row that the reader sees, past `count` others at most. -/
def seekRow (store : Store) (session : Session) (tid : TableId) (count : Nat) (scan : TableScan)
    (own : Bool) : TableScan × Step TableScanStep :=
  match store.table tid with
  | .error error => (scan, store, session, .error error)
  | .ok table =>
    match store.enter session with
    | .error error => (scan, store, session, .error error)
    | .ok (store, session, txn) =>
      if txn.doomed then (scan, store, session, .error .transactionAborted)
      else
        let (scan, step) := scan.seek table store.ledger (txn.view own) count
        (scan, store, session, .ok step)

/-- Asking for a row leaves the tables alone. -/
theorem tables_seekRow (store : Store) (session : Session) (tid : TableId) (count : Nat)
    (scan : TableScan) (own : Bool) :
    (store.seekRow session tid count scan own).2.1.tables = store.tables := by
  rw [seekRow]
  cases store.table tid with
  | error error => rfl
  | ok table =>
    cases henter : store.enter session with
    | error error => rfl
    | ok entered =>
      obtain ⟨after, asking, txn⟩ := entered
      dsimp only
      split <;> exact (enter_eq_ok henter).1

/-- Whoever asks for a row, the scan stands somewhere afterwards. -/
theorem nextInTable_stands {store : Store} {l : Ledger} {work : Work} {tid : TableId}
    {table : Table} (ok : Table.Ok l work tid [] table) (here : store.tables[tid]? = some table)
    {scan : TableScan} {passed? : Option Nat} (stands : scan.Stands table passed?)
    (session : Session) (own : Bool) :
    ∃ further?, (store.nextInTable session tid scan own).1.Stands table further? := by
  rw [nextInTable, table_eq_ok.mpr here]
  cases store.enter session with
  | error error => exact ⟨passed?, stands⟩
  | ok entered =>
    obtain ⟨after, asking, txn⟩ := entered
    dsimp only
    split
    · exact ⟨passed?, stands⟩
    · exact stands.advance ok _ _

/-- Passing over one row more is a step, and going on from there if the reader does not see the row. -/
theorem seekRow_succ (store : Store) (session : Session) (tid : TableId) (count : Nat)
    (scan : TableScan) (own : Bool) :
    ((∀ step, (store.nextInTable session tid scan own).2.2.2 = .ok step →
        step.passesOver = false) ∧
      store.seekRow session tid (count + 1) scan own = store.nextInTable session tid scan own) ∨
    ((∃ step, (store.nextInTable session tid scan own).2.2.2 = .ok step ∧
        step.passesOver = true) ∧
      store.seekRow session tid (count + 1) scan own =
        (store.nextInTable session tid scan own).2.1.seekRow
          (store.nextInTable session tid scan own).2.2.1 tid count
          (store.nextInTable session tid scan own).1 own) := by
  rw [seekRow, nextInTable]
  cases htable : store.table tid with
  | error error => exact Or.inl ⟨(fun _ h => by cases h), rfl⟩
  | ok table =>
    cases henter : store.enter session with
    | error error => exact Or.inl ⟨(fun _ h => by cases h), rfl⟩
    | ok entered =>
      obtain ⟨after, asking, txn⟩ := entered
      obtain ⟨htables, hrunning⟩ := enter_eq_ok henter
      dsimp only
      cases hdoomed : txn.doomed with
      | true => exact Or.inl ⟨(fun _ h => by cases h), rfl⟩
      | false =>
        rw [if_neg Bool.false_ne_true, if_neg Bool.false_ne_true, TableScan.seek]
        dsimp only
        cases hpasses : (scan.advance table after.ledger (txn.view own)).2.passesOver with
        | false =>
          rw [if_neg Bool.false_ne_true]
          refine Or.inl ⟨fun step h => ?_, rfl⟩
          rw [← Except.ok.inj h]
          exact hpasses
        | true =>
          rw [if_pos rfl]
          refine Or.inr ⟨⟨_, rfl, hpasses⟩, ?_⟩
          rw [seekRow, Store.table, htables, ← Store.table, htable, enter_of_running hrunning]
          dsimp only
          rw [hdoomed, if_neg Bool.false_ne_true]

namespace Abreast

variable {a b : Store} {work work' : Work} {session session' : Session} {c : Chronicle}
  (abreast : Abreast a work session b work' session' c)
include abreast

/-- Going on with a scan over a table leaves peers, wherever it stands. -/
theorem seekRow (scan scan' : TableScan) (tid : TableId) (count count' : Nat) (own : Bool) :
    Parallel (a.seekRow session tid count scan own).2 (b.seekRow session' tid count' scan' own).2 := by
  rw [Store.seekRow, Store.seekRow, Store.table, Store.table]
  rcases abreast.peers.table tid with ⟨hleft, hright⟩ | ⟨table, table', hleft, hright, same⟩
  · rw [hleft, hright]
    exact ⟨abreast.peers, abreast.face⟩
  rw [hleft, hright]
  dsimp only
  rcases abreast.enter with ⟨error, henter, henter'⟩ | ⟨after, after', asking, asking', txn, txn',
    henter, henter', peers, face, _⟩
  · rw [henter, henter']
    exact ⟨abreast.peers, abreast.face⟩
  · rw [henter, henter']
    dsimp only
    split <;> split <;> exact ⟨peers, face⟩

/-- Scans that stand at the same place stop at the same row. -/
theorem seekRow_alike {tid : TableId} {table table' : Table} (here : a.tables[tid]? = some table)
    (here' : b.tables[tid]? = some table') {scan scan' : TableScan} {passed? : Option Nat}
    (stands : scan.Stands table passed?) (stands' : scan'.Stands table' passed?) {own : Bool}
    (few : (a.seekRow session tid (table.rows.size + 1) scan own).2.1.ledger.lastId < 2 ^ 40) :
    Agree TableScanStep.Alike (a.seekRow session tid (table.rows.size + 1) scan own).2.2.2
        (b.seekRow session' tid (table'.rows.size + 1) scan' own).2.2.2 ∧
      ∃ further?, (a.seekRow session tid (table.rows.size + 1) scan own).1.Stands table further? ∧
        (b.seekRow session' tid (table'.rows.size + 1) scan' own).1.Stands table' further? := by
  rw [Store.seekRow, Store.table, here] at few ⊢
  rw [Store.seekRow, Store.table, here']
  dsimp only at few ⊢
  rcases abreast.enter with ⟨error, henter, henter'⟩ | ⟨after, after', asking, asking', txn, txn',
    henter, henter', peers, face, htables, htables', hdoomed, running⟩
  · rw [henter, henter']
    exact ⟨.failed _, passed?, stands, stands'⟩
  rw [henter] at few ⊢
  rw [henter']
  dsimp only at few ⊢
  rw [← hdoomed]
  cases hdead : txn.doomed with
  | true => exact ⟨.failed _, passed?, stands, stands'⟩
  | false =>
    rw [hdead, if_neg Bool.false_ne_true] at few
    rw [if_neg Bool.false_ne_true, if_neg Bool.false_ne_true]
    obtain ⟨⟨w, w', c', twins, hw, hw'⟩, htxn⟩ := running few
    rw [← htables] at here
    rw [← htables'] at here'
    have hseek := (twins.sight here here' hw hw' htxn own).seek (twins.ok.tables here)
      (twins.ok'.tables here') stands stands'
    dsimp only
    rw [← Transaction.view_of_face htxn own]
    exact ⟨.done hseek.1, hseek.2⟩

end Abreast
end Store
end SnapshotStore
