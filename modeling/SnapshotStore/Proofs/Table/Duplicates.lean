import Mathlib
import SnapshotStore.Proofs.Table.Build

/-!
# How many rows of a new index share a key

A unique index may be built on rows that share a key. All of them are indexed, and a row is counted if it
owns its key and a row that was indexed before owns it too. The rows come in no order of their own, so the
count should be a fact about the rows and not about the visit.

It is, as long as every row owns the key of its newest version and no other: of the rows that own one key
all but the first are counted, whichever is first, and the entries that the index ends up with are those
of the versions (`fill_counts`).

A row that an open transaction has moved away from a key owns two, the new one and the one it falls back
to. Under which of them it meets another row depends on who is indexed first. Coming first, it is found
under its old key by the row that has that key too; coming second, it is asked for its new key only, and
the two rows that share the old key go uncounted (`moved_row_counted_once`).
-/

namespace SnapshotStore

open Fallible

/-! ## 1. The key a row owns -/

namespace Chain

/-- Nobody has moved the row from one key to another and can still take that back: the newest version is
committed, or the one below it has the same key. -/
def Unmoved (spec : KeySpec) (l : Ledger) : Chain → Prop
  | newest :: previous :: _ =>
    l.isCommitted newest.created.transaction = true ∨
      spec.keyOf previous.record = spec.keyOf newest.record
  | _ => True

/-- The key of the newest version, unless the row is deleted for good. -/
def ownKey? (spec : KeySpec) (l : Ledger) : Chain → Option Bytes
  | [] => none
  | newest :: _ =>
    if newest.deleted.any fun stamp =>
        stamp.transaction == Ledger.noTransaction || l.isCommitted stamp.transaction then none
    else (spec.keyOf newest.record).toOption

variable {spec : KeySpec} {l : Ledger} {chain older : Chain} {newest : Version} {key : Bytes}

/-- A row owns the key of its newest version exactly if that is the key counted as its own. -/
theorem owns_newest (h : spec.keyOf newest.record = .ok key) :
    Owns spec l Ledger.noTransaction key (newest :: older) ↔
      ownKey? spec l (newest :: older) = some key := by
  rw [Owns, ownKey?, ← Bool.not_eq_true]
  split
  · rename_i hgone
    simp [hgone]
  · rename_i hkept
    rw [toOption_eq_some]
    simp [hkept, h]

theorem keyOf_of_ownKey? (h : ownKey? spec l (newest :: older) = some key) :
    spec.keyOf newest.record = .ok key := by
  rw [ownKey?] at h
  split at h
  · cases h
  · exact toOption_eq_some.mp h

theorem owns_iff_of_unmoved (unmoved : Unmoved spec l chain) :
    Owns spec l Ledger.noTransaction key chain ↔ ownKey? spec l chain = some key := by
  cases chain with
  | nil => simp [Owns, ownKey?]
  | cons newest older =>
    constructor
    · intro howns
      obtain ⟨_, hnewest | ⟨_, hopen, previous, rest, rfl, hprevious⟩⟩ := id howns
      · exact (owns_newest hnewest).mp howns
      · rcases unmoved with hcommitted | hsame
        · rw [hopen] at hcommitted
          cases hcommitted
        · exact (owns_newest (hsame ▸ hprevious)).mp howns
    · intro hown
      exact (owns_newest (keyOf_of_ownKey? hown)).mpr hown

end Chain

namespace Table

open Chain

variable {l : Ledger} {table : Table} {row : RowHandle} {chain : Chain} {spec : KeySpec}
  {done rows : List (RowHandle × Chain)}

/-- The keys that the rows own through their newest versions, as often as they are owned. -/
def ownKeys (spec : KeySpec) (l : Ledger) (rows : List (RowHandle × Chain)) : List Bytes :=
  rows.filterMap fun (_, chain) => chain.ownKey? spec l

/-! ## 2. The entries of the rows so far -/

/-- The index has the entries of these rows and no others. -/
structure Indexes (table : Table) (index : Index) (rows : List (RowHandle × Chain)) : Prop where
  tree : index.trie.pool.IsTree
  iff : ∀ entry row, index.trie.get? entry = some row ↔ table.EntryOf index.spec rows entry row

theorem Indexes.leads {index : Index} (h : table.Indexes index done) : Leads index := by
  intro entry row hbound
  obtain ⟨_, _, _, _, key, _, hentry⟩ := (h.iff entry row).mp hbound
  exact ⟨key, hentry⟩

/-- Entering versions whose keys can be built comes out well. -/
theorem exists_fillVersions (index : Index) (row : RowHandle)
    (keyed : ∀ v ∈ chain, ∃ key, index.spec.Keyed table.maxKeyLength v.record key) :
    ∃ index', List.foldlM (table.fillVersion row) index chain = .ok index' := by
  induction chain generalizing index with
  | nil => exact ⟨index, rfl⟩
  | cons v older ih =>
    obtain ⟨key, hkey⟩ := keyed v List.mem_cons_self
    have hfirst : table.fillVersion row index v =
        .ok { index with trie := (index.trie.put (Key.entry key row) row).1 } := by
      rw [fillVersion, hkey.entry_eq]
      rfl
    obtain ⟨index', hrest⟩ := ih { index with trie := (index.trie.put (Key.entry key row) row).1 }
      fun w hw => keyed w (List.mem_cons_of_mem _ hw)
    exact ⟨index', by rw [List.foldlM_cons, hfirst, ok_bind, hrest]⟩

/-- The entries of one more row. -/
theorem Indexes.fillVersions {index : Index} (h : table.Indexes index done) (row : RowHandle)
    (keyed : ∀ v ∈ chain, ∃ key, index.spec.Keyed table.maxKeyLength v.record key) :
    ∃ index', List.foldlM (table.fillVersion row) index chain = .ok index' ∧
      index'.spec = index.spec ∧ table.Indexes index' (done ++ [(row, chain)]) := by
  obtain ⟨index', hfill⟩ := exists_fillVersions index row keyed
  obtain ⟨hstep, hentered⟩ := fillVersions_spec h.tree h.leads hfill
  refine ⟨index', hfill, hstep.spec, hstep.tree, fun entry other => ?_⟩
  rw [hstep.spec]
  constructor
  · intro hbound
    rcases fillVersions_only h.tree h.leads hfill hbound with hbefore | ⟨rfl, hversion⟩
    · obtain ⟨chain', hin, hversion⟩ := (h.iff entry other).mp hbefore
      exact ⟨chain', List.mem_append_left _ hin, hversion⟩
    · exact ⟨chain, List.mem_append_right _ List.mem_cons_self, hversion⟩
  · rintro ⟨chain', hin, v, hv, key, hkey, rfl⟩
    rcases List.mem_append.mp hin with hin | hin
    · exact hstep.keeps ((h.iff _ other).mpr ⟨chain', hin, v, hv, key, hkey, rfl⟩)
    · cases List.mem_singleton.mp hin
      obtain ⟨own, hown, hbound⟩ := hentered v hv
      rw [hstep.spec] at hown
      rw [hkey.unique hown]
      exact hbound

/-! ## 3. Who is counted -/

/-- Different rows of the table, whose keys can be built for all versions, and none of which is moved. -/
structure Plain (table : Table) (l : Ledger) (spec : KeySpec) (rows : List (RowHandle × Chain)) :
    Prop where
  different : (rows.map Prod.fst).Nodup
  there : ∀ row chain, (row, chain) ∈ rows → table.rows[row]? = some chain
  keyed : ∀ row chain, (row, chain) ∈ rows →
    ∀ v ∈ chain, ∃ key, spec.Keyed table.maxKeyLength v.record key
  unmoved : ∀ row chain, (row, chain) ∈ rows → chain.Unmoved spec l

theorem Plain.front (h : table.Plain l spec (done ++ rows)) : table.Plain l spec done := by
  have hin : ∀ {row chain}, (row, chain) ∈ done → (row, chain) ∈ done ++ rows :=
    fun hmem => List.mem_append_left rows hmem
  refine ⟨?_, fun row chain hmem => h.there row chain (hin hmem),
    fun row chain hmem => h.keyed row chain (hin hmem),
    fun row chain hmem => h.unmoved row chain (hin hmem)⟩
  have hdifferent := h.different
  rw [List.map_append] at hdifferent
  exact hdifferent.of_append_left

/-- A row that is visited has not been visited before. -/
theorem Plain.fresh (h : table.Plain l spec (done ++ [(row, chain)])) : row ∉ done.map Prod.fst := by
  have hdifferent := h.different
  rw [List.map_append, List.nodup_append] at hdifferent
  intro hmem
  exact hdifferent.2.2 row hmem row List.mem_cons_self rfl

section Counting

variable {index : Index} (h : table.Indexes index done)
  (plain : table.Plain l index.spec (done ++ [(row, chain)]))
include h plain

/-- The key of the row that comes next is owned by one before exactly if it is among their own keys. -/
theorem Indexes.isOwned_spec (key : Bytes) : ∃ b,
    table.isOwned l Ledger.noTransaction index (Key.entry key row) row = .ok b ∧
      (b = true ↔ key ∈ ownKeys index.spec l done) := by
  obtain ⟨_, hthere, hkeyed, hunmoved⟩ := plain.front
  have hsound : ∀ {entry row}, index.trie.get? entry = some row → ∃ key, entry = Key.entry key row :=
    h.leads
  have hdone : ∀ owner ∈ (index.owners (Key.entry key row)).filter (· ≠ row),
      (owner, table.chainOf owner) ∈ done := by
    intro owner howner
    rw [List.mem_filter, mem_owners h.tree hsound, h.iff] at howner
    obtain ⟨⟨chain, hin, _⟩, _⟩ := howner
    rwa [chainOf_eq (hthere owner chain hin)]
  obtain ⟨b, hb, hiff⟩ := anyM_spec fun owner howner =>
    ask_owner (hkeyed owner _ (hdone owner howner)) l Ledger.noTransaction key row
  refine ⟨b, hb, hiff.trans ?_⟩
  rw [ownKeys, List.mem_filterMap]
  constructor
  · rintro ⟨owner, howner, howns⟩
    have hin := hdone owner howner
    exact ⟨_, hin, (owns_iff_of_unmoved (hunmoved owner _ hin)).mp howns⟩
  · rintro ⟨⟨owner, chain⟩, hin, hown⟩
    -- A row that owns a key has a version with that key, and so an entry under it.
    have howns := (owns_iff_of_unmoved (hunmoved owner chain hin)).mpr hown
    obtain ⟨v, hv, hkey⟩ := howns.exists_keyed (hkeyed owner chain hin)
    refine ⟨owner, ?_, by rwa [chainOf_eq (hthere owner chain hin)]⟩
    rw [List.mem_filter, mem_owners h.tree hsound, h.iff]
    refine ⟨⟨chain, hin, v, mem_of_mem_reach hv, key, hkey, rfl⟩, ?_⟩
    exact decide_eq_true fun hsame => plain.fresh (hsame ▸ List.mem_map_of_mem hin)

/-- The row that comes next is counted exactly if it owns a key that is owned already. -/
theorem Indexes.clashes_spec : ∃ b, table.clashes l index row chain = .ok b ∧
    (b = true ↔ ∃ key ∈ ownKeys index.spec l done, chain.ownKey? index.spec l = some key) := by
  have hkeyed := plain.keyed row chain (List.mem_append_right _ List.mem_cons_self)
  cases chain with
  | nil => exact ⟨false, rfl, by simp [ownKey?]⟩
  | cons newest older =>
    obtain ⟨key, hkey⟩ := hkeyed newest List.mem_cons_self
    obtain ⟨own, hown, hiff⟩ := owns_spec hkeyed l Ledger.noTransaction key row
    rw [owns_newest hkey.1] at hiff
    rw [clashes, hkey.entry_eq, ok_bind, hown, ok_bind]
    cases own with
    | false =>
      refine ⟨false, rfl, ⟨(by rintro ⟨⟩), ?_⟩⟩
      rintro ⟨key', _, hkey'⟩
      rw [Except.ok.inj ((keyOf_of_ownKey? hkey').symm.trans hkey.1)] at hkey'
      exact hiff.mpr hkey'
    | true =>
      obtain ⟨b, hb, hiff'⟩ := h.isOwned_spec plain key
      refine ⟨b, hb, hiff'.trans ?_⟩
      rw [hiff.mp rfl]
      simp

end Counting

/-- Whether a key comes on top is what the number of different keys falls behind by. -/
theorem counted_concat {keys : List Bytes} {key? : Option Bytes} {violations : Nat} {clash : Bool}
    (hclash : clash = true ↔ ∃ key ∈ keys, key? = some key)
    (counted : violations + keys.toFinset.card = keys.length) :
    (violations + if clash then 1 else 0) + (keys ++ key?.toList).toFinset.card =
      (keys ++ key?.toList).length := by
  cases key? with
  | none =>
    have hnot : clash = false := by simpa using hclash
    rw [hnot, Option.toList_none, List.append_nil]
    simpa using counted
  | some key =>
    have hset : (keys ++ [key]).toFinset = insert key keys.toFinset := by
      ext other
      simp
    rw [Option.toList_some, hset, List.length_append, List.length_singleton]
    by_cases hmem : key ∈ keys
    · have hyes : clash = true := hclash.mpr ⟨key, hmem, rfl⟩
      rw [hyes, if_pos rfl, Finset.insert_eq_of_mem (List.mem_toFinset.mpr hmem)]
      omega
    · have hnot : clash = false := by
        rw [← Bool.not_eq_true, hclash]
        rintro ⟨other, hother, heq⟩
        exact hmem (Option.some.inj heq ▸ hother)
      rw [hnot, Finset.card_insert_of_notMem fun hin => hmem (List.mem_toFinset.mp hin)]
      simp only [Bool.false_eq_true, if_false]
      omega

/-! ## 4. Filling -/

/-- What filling a unique index has come to after these rows: their entries are in it, and of the rows that
own one key all but one are counted. -/
structure Filling.After (table : Table) (l : Ledger) (spec : KeySpec)
    (rows : List (RowHandle × Chain)) (filling : Filling) : Prop where
  same : filling.index.spec = spec
  indexes : table.Indexes filling.index rows
  counted : filling.violations + (ownKeys spec l rows).toFinset.card = (ownKeys spec l rows).length

theorem Filling.After.fillRow {filling : Filling} (h : filling.After table l spec done)
    (unique : spec.unique = true) (plain : table.Plain l spec (done ++ [(row, chain)])) :
    ∃ filling', table.fillRow l filling row chain = .ok filling' ∧
      filling'.After table l spec (done ++ [(row, chain)]) := by
  obtain ⟨rfl, hindexes, hcounted⟩ := h
  obtain ⟨clash, hclash, hiff⟩ := hindexes.clashes_spec plain
  have hkeyed := plain.keyed row chain (List.mem_append_right _ List.mem_cons_self)
  obtain ⟨index', hfill, hsame, hindexes'⟩ := hindexes.fillVersions row hkeyed
  refine ⟨⟨index', filling.violations + if clash then 1 else 0⟩, ?_, hsame, hindexes', ?_⟩
  · rw [Table.fillRow, if_pos unique, hclash, ok_bind, hfill]
    rfl
  · have hkeys : ownKeys filling.index.spec l (done ++ [(row, chain)]) =
        ownKeys filling.index.spec l done ++ (chain.ownKey? filling.index.spec l).toList := by
      rw [ownKeys, List.filterMap_append]
      cases hown : chain.ownKey? filling.index.spec l <;> simp [ownKeys, hown]
    rw [hkeys]
    exact counted_concat hiff hcounted

theorem Filling.After.rest {filling : Filling} (h : filling.After table l spec done)
    (unique : spec.unique = true) (plain : table.Plain l spec (done ++ rows)) :
    ∃ filling', rows.foldlM (fun filling (row, chain) => table.fillRow l filling row chain) filling =
      .ok filling' ∧ filling'.After table l spec (done ++ rows) := by
  induction rows generalizing done filling with
  | nil => exact ⟨filling, rfl, by rwa [List.append_nil]⟩
  | cons first rows ih =>
    obtain ⟨row, chain⟩ := first
    rw [List.append_cons] at plain ⊢
    obtain ⟨middle, hfirst, hmiddle⟩ := h.fillRow unique plain.front
    obtain ⟨filling', hrest, hafter⟩ := ih hmiddle plain
    refine ⟨filling', ?_, hafter⟩
    rw [List.foldlM_cons]
    simp only [hfirst, ok_bind, hrest]

/-- A unique index is filled with the rows of a table in any order. If the keys can be built and no row is
moved, of the rows that own one key all but one are counted. -/
theorem fill_counts (unique : spec.unique = true)
    (keyed : ∀ row, ∀ v ∈ table.chainOf row, ∃ key, spec.Keyed table.maxKeyLength v.record key)
    (unmoved : ∀ row, (table.chainOf row).Unmoved spec l)
    (order : rows.Perm table.rows.toList) : ∃ filling, table.fill l { spec } rows = .ok filling ∧
      filling.violations + (ownKeys spec l table.rows.toList).toFinset.card =
        (ownKeys spec l table.rows.toList).length ∧
      ∀ entry row, filling.index.trie.get? entry = some row ↔
        table.EntryOf spec table.rows.toList entry row := by
  have hthere : ∀ row chain, (row, chain) ∈ rows → table.rows[row]? = some chain := by
    intro row chain hmem
    exact Std.ExtTreeMap.mem_toList_iff_getElem?_eq_some.mp (order.mem_iff.mp hmem)
  have hplain : table.Plain l spec ([] ++ rows) := by
    refine ⟨?_, hthere, fun row chain hmem => ?_, fun row chain hmem => ?_⟩
    · rw [List.nil_append, (order.map Prod.fst).nodup_iff, Std.ExtTreeMap.map_fst_toList_eq_keys]
      exact Std.ExtTreeMap.nodup_keys
    · have hchain := chainOf_eq (hthere row chain hmem)
      exact hchain ▸ keyed row
    · have hchain := chainOf_eq (hthere row chain hmem)
      exact hchain ▸ unmoved row
  have hempty : Filling.After table l spec [] { index := { spec } } := by
    refine ⟨rfl, ⟨NodePool.isTree_empty, fun entry row => ?_⟩, rfl⟩
    rw [Trie.get?_empty]
    constructor
    · intro h
      cases h
    · rintro ⟨chain, hmem, _⟩
      cases hmem
  obtain ⟨filling, hfill, hsame, hindexes, hcounted⟩ := hempty.rest unique hplain
  rw [List.nil_append] at hindexes hcounted
  have hkeys : (ownKeys spec l rows).Perm (ownKeys spec l table.rows.toList) := order.filterMap _
  refine ⟨filling, hfill, ?_, fun entry row => ?_⟩
  · rwa [← hkeys.length_eq, ← List.toFinset_eq_of_perm _ _ hkeys]
  · rw [hindexes.iff, hsame, EntryOf, EntryOf]
    simp only [order.mem_iff]

/-- What a build counts, if no row is moved. -/
theorem buildIndex_counts {visit : Visit} {after : Table} {id : Nat} {filling : Filling}
    (h : table.buildIndex l spec visit = .ok (after, id, filling))
    (unique : filling.index.spec.unique = true)
    (unmoved : ∀ row, (table.chainOf row).Unmoved filling.index.spec l) :
    filling.violations + (ownKeys filling.index.spec l table.rows.toList).toFinset.card =
      (ownKeys filling.index.spec l table.rows.toList).length := by
  obtain ⟨_, built⟩ := buildIndex_spec h
  have hkeyed : ∀ row, ∀ v ∈ table.chainOf row,
      ∃ key, filling.index.spec.Keyed table.maxKeyLength v.record key := by
    intro row v hv
    obtain ⟨key, hkey, _⟩ := built.entered hv
    exact ⟨key, hkey⟩
  obtain ⟨filling', hfill', hcounted, _⟩ :=
    fill_counts unique hkeyed unmoved (visit.perm table)
  obtain ⟨bound, hbound, hfill, _⟩ := fill_of_buildIndex h
  have hsame : bound = filling.index.spec := Except.ok.inj (hbound.symm.trans built.spec)
  rw [hsame, hfill'] at hfill
  exact Except.ok.inj hfill ▸ hcounted

/-! ## 5. A moved row -/

/-- Rows of one byte. -/
def letters : Schema := ⟨0, [⟨"letter", 0, .fixed 1⟩], 1⟩

/-- The version of a letter that a transaction has written. -/
def letterVersion (serial : Nat) (letter : UInt8) (transaction : Int) : Version :=
  { id := ⟨serial, false⟩, record := ⟨letters, [letter], rfl⟩, created := .of transaction 1 }

/-- Two rows with the letter `a`, of which the second is being moved to `b`. -/
def movingRows : List (RowHandle × Chain) :=
  [(⟨11, by decide, by decide⟩, [letterVersion 0 97 1]),
    (⟨12, by decide, by decide⟩, [letterVersion 2 98 2, letterVersion 1 97 1])]

/-- The table with these rows. -/
def moving : Table :=
  { Table.create "letters" letters {} with rows := .ofList movingRows compare }

/-- The first transaction has committed, the second is running. -/
def secondRuns : Ledger :=
  { lastId := 2, sequence := 3
    active := (∅ : Std.ExtTreeMap Int Int).insert 2 3
    committed := (∅ : Std.ExtTreeMap Int Int).insert 1 2 }

/-- An index that is to be unique. -/
def byLetter : Index := { spec := { name := "by letter", parts := [0], unique := true } }

/-- The two rows share the letter that the second may fall back to. That is noticed if the second comes
first, and not if it comes second. -/
theorem moved_row_counted_once : moving.rows.toList = movingRows ∧
    (moving.fill secondRuns byLetter movingRows.reverse).map Filling.violations = .ok 1 ∧
    (moving.fill secondRuns byLetter movingRows).map Filling.violations = .ok 0 := by
  decide +kernel

end Table
end SnapshotStore
