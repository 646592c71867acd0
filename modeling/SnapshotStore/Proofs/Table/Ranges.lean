import Mathlib
import SnapshotStore.Proofs.Table.Search

/-!
# The range of a scan

What a scan over entries finds, said about keys and rows: a kind of scan, a start and whether the start
is included describe a range of keys (`ScanKind.Covers`), and rows are met by key and, under one key, by
handle (`ScanKind.Precedes`). The starts that a scan is given among the entries are such that the entries
ahead of it are those of the range.
-/

namespace SnapshotStore

/-! ## 1. Keys among entries -/

namespace ScanKind

/-- The key lies in the range of a scan from `start`. -/
def Covers (kind : ScanKind) (start : Bytes) (inclusive : Bool) (key : Bytes) : Prop :=
  match kind with
  | range => Bytes.order start key = .lt ∨ inclusive = true ∧ key = start
  | reverseRange => Bytes.order key start = .lt ∨ inclusive = true ∧ key = start
  | beginning => start <+: key

/-- The scan meets one row under one key before another row under another. -/
def Precedes (kind : ScanKind) (a b : Bytes × RowHandle) : Prop :=
  match kind with
  | range | beginning => Bytes.order a.1 b.1 = .lt ∨ a.1 = b.1 ∧ a.2.val < b.2.val
  | reverseRange => Bytes.order b.1 a.1 = .lt ∨ a.1 = b.1 ∧ b.2.val < a.2.val

/-- The bytes with which all entries of the scan begin. -/
def front (kind : ScanKind) (start : Bytes) : Bytes :=
  match kind with
  | beginning => Key.escape start
  | range | reverseRange => []

variable {kind : ScanKind} {start key key' : Bytes} {inclusive : Bool} {row row' : RowHandle}

theorem order_entry_lt : Bytes.order (Key.entry key row) (Key.entry key' row') = .lt ↔
    Bytes.order key key' = .lt ∨ key = key' ∧ row.val < row'.val := by
  rw [Key.order_entry, Ordering.then_eq_lt, Bytes.order_eq_iff, Nat.compare_eq_lt]

theorem precedes_iff : kind.Precedes (key, row) (key', row') ↔
    kind.direction.After (Key.entry key row) (Key.entry key' row') := by
  cases kind with
  | range => exact order_entry_lt.symm
  | beginning => exact order_entry_lt.symm
  | reverseRange =>
    refine Iff.trans ?_ order_entry_lt.symm
    exact or_congr_right (and_congr_left fun _ => eq_comm)

/-- What comes after a key in the range is in the range, as far as it begins like the range. -/
theorem covers_iff_front (h : kind.Covers start inclusive key)
    (hprecedes : kind.Precedes (key, row) (key', row')) :
    kind.Covers start inclusive key' ↔ kind.front start <+: Key.entry key' row' := by
  cases kind with
  | beginning => exact Key.escape_isPrefix_entry.symm
  | range =>
    refine iff_of_true ?_ List.nil_prefix
    rcases hprecedes with hlt | ⟨heq, _⟩
    · rcases h with hstart | ⟨_, rfl⟩
      · exact Or.inl (Bytes.order_trans hstart hlt)
      · exact Or.inl hlt
    · dsimp only at heq
      rw [← heq]
      exact h
  | reverseRange =>
    refine iff_of_true ?_ List.nil_prefix
    rcases hprecedes with hlt | ⟨heq, _⟩
    · rcases h with hstart | ⟨_, rfl⟩
      · exact Or.inl (Bytes.order_trans hlt hstart)
      · exact Or.inl hlt
    · dsimp only at heq
      rw [← heq]
      exact h

/-- The lower end of the entries of a key. -/
theorem order_encode_entry (start key : Bytes) (row : RowHandle) :
    Bytes.order (Key.encode start) (Key.entry key row) = .lt ↔
      Bytes.order start key = .lt ∨ key = start := by
  have hcmp := Key.order_encode_append start key [] row.toBytes
  rw [List.append_nil] at hcmp
  have hnil : Bytes.order [] row.toBytes = .lt := by
    cases hbytes : row.toBytes with
    | nil =>
      have hlength := row.length_toBytes
      rw [hbytes] at hlength
      cases hlength
    | cons => rfl
  rw [Key.entry, hcmp, hnil, Ordering.then_eq_lt, Bytes.order_eq_iff, and_iff_left rfl, eq_comm (a := start)]

/-- The upper end of the entries of a key. -/
theorem order_entry_greatest (start key : Bytes) (row : RowHandle) :
    Bytes.order (Key.encode start ++ List.replicate RowHandle.width 255) (Key.entry key row) = .lt ↔
      Bytes.order start key = .lt := by
  rw [Key.entry, Key.order_encode_append, Ordering.then_eq_lt]
  exact or_iff_left fun h => Bytes.order_replicate_ne_lt row.length_toBytes h.2

/-- A byte string is at most another if the other is not less. -/
theorem order_lt_or_eq {a b : Bytes} : (Bytes.order a b = .lt ∨ a = b) ↔ Bytes.order b a ≠ .lt := by
  rw [← Bytes.order_swap a b, ← Bytes.order_eq_iff]
  cases Bytes.order a b <;> simp

/-- The entries at or past the start of a scan are those of the keys in its range. -/
theorem after_start_iff (hkind : kind ≠ beginning) :
    ((kind.start start inclusive).2 = true ∧ Key.entry key row = (kind.start start inclusive).1 ∨
      kind.direction.After (kind.start start inclusive).1 (Key.entry key row)) ↔
    kind.Covers start inclusive key := by
  have hencode : Key.entry key row = Key.encode start → key = start := by
    intro heq
    have hbegins : Key.encode start <+: Key.entry key row := by rw [heq]
    exact (Key.encode_isPrefix_entry.mp hbegins).symm
  cases kind with
  | beginning => exact absurd rfl hkind
  | range =>
    cases inclusive with
    | true =>
      simp only [ScanKind.start, direction, Direction.After, Covers, if_true, true_and]
      rw [order_encode_entry]
      exact ⟨fun h => h.elim (fun heq => Or.inr (hencode heq)) id, Or.inr⟩
    | false =>
      simp only [ScanKind.start, direction, Direction.After, Covers, Bool.false_eq_true, if_false,
        false_and, false_or, or_false]
      exact order_entry_greatest ..
  | reverseRange =>
    cases inclusive with
    | true =>
      simp only [ScanKind.start, direction, Direction.After, Covers, if_true, true_and]
      rw [or_comm, order_lt_or_eq, order_lt_or_eq, not_iff_not]
      exact order_entry_greatest ..
    | false =>
      simp only [ScanKind.start, direction, Direction.After, Covers, Bool.false_eq_true, if_false,
        false_and, false_or, or_false]
      rw [← not_iff_not, ← ne_eq, ← ne_eq, ← order_lt_or_eq, ← order_lt_or_eq, order_encode_entry]
      constructor
      · rintro (h | heq)
        · exact h.imp_right Eq.symm
        · exact Or.inr (hencode heq.symm).symm
      · exact fun h => Or.inl (h.imp_right Eq.symm)

/-- The cursor of a new scan is on the first entry of its range. -/
theorem cursor_spec {trie : Trie} (tree : trie.pool.IsTree) (kind : ScanKind) (start : Bytes)
    (inclusive : Bool) : ∃ among : Bytes → Prop,
    (∀ key row, among (Key.entry key row) ↔ kind.Covers start inclusive key) ∧
    (∀ a, among a → kind.front start <+: a) ∧
    (∀ a b, among a → kind.direction.After a b → kind.front start <+: b → among b) ∧
    (kind.cursor trie start inclusive).Sound trie ∧
    (kind.cursor trie start inclusive).direction = kind.direction ∧
    (kind.cursor trie start inclusive).beginning = kind.front start ∧
    trie.Finds kind.direction among (kind.cursor trie start inclusive).current := by
  by_cases hkind : kind = beginning
  · subst hkind
    have hmoved := Trie.scanBeginning_spec tree (Key.escape start)
    refine ⟨(Key.escape start <+: ·), fun key row => Key.escape_isPrefix_entry, fun _ h => h,
      fun _ _ _ _ h => h, hmoved.sound, hmoved.direction, hmoved.beginning, ?_⟩
    exact hmoved.finds.congr fun key => and_iff_right trivial
  · have hmoved := Trie.scan_spec tree (kind.start start inclusive).1 (kind.start start inclusive).2
      kind.direction
    have hfront : kind.front start = [] := by
      cases kind with
      | beginning => exact absurd rfl hkind
      | range | reverseRange => rfl
    have hcursor : kind.cursor trie start inclusive =
        trie.scan (kind.start start inclusive).1 (kind.start start inclusive).2 kind.direction := by
      cases kind with
      | beginning => exact absurd rfl hkind
      | range | reverseRange => rfl
    rw [hfront, hcursor]
    refine ⟨fun a => (kind.start start inclusive).2 = true ∧ a = (kind.start start inclusive).1 ∨
        kind.direction.After (kind.start start inclusive).1 a, fun key row => after_start_iff hkind,
      fun _ _ => List.nil_prefix, fun a b ha hab _ => ?_, hmoved.sound, hmoved.direction,
      hmoved.beginning, ?_⟩
    · rcases ha with ⟨_, rfl⟩ | ha
      · exact Or.inr hab
      · exact Or.inr (ha.trans hab)
    · exact hmoved.finds.congr fun key => and_iff_left List.nil_prefix

end ScanKind

/-! ## 2. The first row of a range -/

/-- What has been found is the first in scan order of the visible rows whose keys are among these. -/
def Table.First (table : Table) (l : Ledger) (view : View) (spec : KeySpec) (kind : ScanKind)
    (among : Bytes × RowHandle → Prop) : Option RowRef → Prop
  | none => ∀ key ref, table.Visible l view spec key ref → ¬ among (key, ref.handle)
  | some found =>
    ∃ key, table.Visible l view spec key found ∧ among (key, found.handle) ∧
      ∀ key' ref, table.Visible l view spec key' ref → among (key', ref.handle) →
        ref = found ∨ kind.Precedes (key, found.handle) (key', ref.handle)

theorem Table.Foremost.first {table : Table} {l : Ledger} {view : View} {spec : KeySpec}
    {kind : ScanKind} {among : Bytes → Prop} {among' : Bytes × RowHandle → Prop}
    {found? : Option RowRef} (h : table.Foremost l view spec kind.direction among found?)
    (same : ∀ key row, among (Key.entry key row) ↔ among' (key, row)) :
    table.First l view spec kind among' found? := by
  cases found? with
  | none => exact fun key ref hvisible hin => h key ref hvisible ((same _ _).mpr hin)
  | some found =>
    obtain ⟨key, hvisible, hin, hfirst⟩ := h
    exact ⟨key, hvisible, (same _ _).mp hin, fun key' ref href hin' =>
      (hfirst key' ref href ((same _ _).mpr hin')).imp_right ScanKind.precedes_iff.mpr⟩

namespace IndexScan

variable {table : Table} {l : Ledger} {view : View} {tid : TableId} {index : Index}
  (ok : IndexOk l table tid [] index) (viewing : Chain.Viewing l view)
include ok viewing

omit ok viewing in
theorem advance_rest (index : Index) (table : Table) (l : Ledger) (view : View)
    (scan : IndexScan) : (scan.advance index table l view).1.table = scan.table ∧
      (scan.advance index table l view).1.index = scan.index ∧
      (scan.advance index table l view).1.kind = scan.kind := by
  rw [advance]
  split
  · exact ⟨rfl, rfl, rfl⟩
  · exact advanceWithin_rest ..

/-- A new scan finds the first visible row of its range. -/
theorem advance_cursor_spec (id : TableId) (i : Nat) (kind : ScanKind) (start : Bytes)
    (inclusive : Bool) (scan : IndexScan) (hscan : scan =
      ⟨id, i, kind, kind.cursor index.trie start inclusive, true, false⟩) :
    ∃ found?, (scan.advance index table l view).2 = .ok found? ∧
      table.First l view index.spec kind (fun entry => kind.Covers start inclusive entry.1)
        found? ∧
      (found? = none → (scan.advance index table l view).1.finished = true) ∧
      ∀ ref, found? = some ref → ∃ key, table.Visible l view index.spec key ref ∧
        (scan.advance index table l view).1.RestsOn index.trie (kind.front start) key
          ref.handle := by
  subst hscan
  obtain ⟨among, hamong, hbegins, honward, hsound, hdirection, hbeginning, hfinds⟩ :=
    ScanKind.cursor_spec ok.tree kind start inclusive
  rw [advance, if_neg Bool.false_ne_true]
  obtain ⟨found?, hfound, hforemost, hend, hrests⟩ := advanceWithin_spec ok viewing
    (index.trie.nodeCount + 2) ⟨id, i, kind, kind.cursor index.trie start inclusive, true, false⟩
    _ rfl hsound hdirection hbeginning hfinds rfl hbegins honward
    (Nat.succ_pos _) fun entry row hcurrent => by
      rw [if_pos rfl] at hcurrent
      rw [hcurrent] at hfinds
      have hlt : index.trie.keysAhead kind.direction entry < index.trie.nodeCount :=
        Trie.keysAhead_lt_nodeCount ok.tree (by rw [hfinds.2.1]; rfl)
      show index.trie.keysAhead kind.direction entry + 1 < _
      omega
  exact ⟨found?, hfound, hforemost.first fun key row => hamong key row, hend, hrests⟩

/-- A scan that rests on a row finds the first visible row past it in its range. -/
theorem advance_spec {scan : IndexScan} {start key : Bytes} {inclusive : Bool} {row : RowHandle}
    (rests : scan.RestsOn index.trie (scan.kind.front start) key row)
    (hcovers : scan.kind.Covers start inclusive key) :
    ∃ found?, (scan.advance index table l view).2 = .ok found? ∧
      table.First l view index.spec scan.kind (fun entry =>
        scan.kind.Covers start inclusive entry.1 ∧ scan.kind.Precedes (key, row) entry) found? ∧
      (found? = none → (scan.advance index table l view).1.finished = true) ∧
      ∀ ref, found? = some ref → ∃ key, table.Visible l view index.spec key ref ∧
        (scan.advance index table l view).1.RestsOn index.trie (scan.kind.front start) key
          ref.handle := by
  have hmoved := Trie.Cursor.next_spec ok.tree rests.sound rests.open'
  have hfinds := hmoved.finds
  rw [rests.on, rests.direction, rests.beginning] at hfinds
  rw [advance, rests.unfinished, if_neg Bool.false_ne_true]
  obtain ⟨found?, hfound, hforemost, hend, hrests⟩ := advanceWithin_spec ok viewing
    (index.trie.nodeCount + 2) scan (scan.cursor.next index.trie)
    (by rw [rests.taken, if_neg Bool.false_ne_true]) hmoved.sound
    (hmoved.direction.trans rests.direction) (hmoved.beginning.trans rests.beginning) hfinds
    rests.unfinished (fun _ h => h.2) (fun a b ha hab hb => ⟨ha.1.trans hab, hb⟩) (Nat.succ_pos _)
    fun entry row' hcurrent => by
      rw [hcurrent] at hfinds
      have hlt : index.trie.keysAhead scan.kind.direction entry < index.trie.nodeCount :=
        Trie.keysAhead_lt_nodeCount ok.tree (by rw [hfinds.2.1]; rfl)
      omega
  refine ⟨found?, hfound, hforemost.first fun key' row' => ?_, hend, hrests⟩
  rw [← ScanKind.precedes_iff, and_comm]
  exact and_congr_left fun hprecedes => (ScanKind.covers_iff_front hcovers hprecedes).symm

end IndexScan
end SnapshotStore
