import Mathlib
import SnapshotStore.Proofs.History.Linked
import SnapshotStore.Proofs.History.Store

/-!
# Who takes an entry out

An index holds more entries than its rows carry keys: those of keys that rows have been moved away from,
and those of writes that may yet be taken back. No reader is misled by them, but somebody has to take each
of them out one day, and for each it can be said who (`Table.Covered`): the transaction that bound it, as
long as it is running; or the row, if it is the entry of the last record that was committed of it, since
it goes with the row; or else a note that the entry is outdated.

That nothing is forgotten rests on a fact about deeds. A record that came on top of another one has its
key, or the entry of the one below has been noted (`Table.Follows`). So whoever walks up from a record
finds its key on top or a note on the way (`Table.exists_noted`).
-/

namespace SnapshotStore

/-- The last record that the deeds gave has the key. -/
def Deed.LastGives (deeds : List Deed) (spec : KeySpec) (key : Bytes) : Prop :=
  ∃ deed, deeds.find? (·.record?.isSome) = some deed ∧ deed.Gives spec key

theorem Deed.LastGives.ne_nil {deeds : List Deed} {spec : KeySpec} {key : Bytes}
    (h : Deed.LastGives deeds spec key) : deeds ≠ [] := by
  obtain ⟨_, hfound, _⟩ := h
  exact List.ne_nil_of_mem (List.mem_of_find?_eq_some hfound)

namespace Table

/-! ## 1. Entries -/

/-- What the index of that number is of. -/
def spec? (table : Table) (i : Nat) : Option KeySpec := (table.indexes[i]?).map (·.spec)

/-- The index of that number has the entry for the row. -/
def Bears (table : Table) (i : Nat) (entry : Bytes) (row : RowHandle) : Prop :=
  ∃ index, table.indexes[i]? = some index ∧ index.trie.get? entry = some row

section Bookkeeping

variable (l : Ledger) (work : Work) (c : Chronicle) (tid : TableId) (table : Table)

/-- It is noted that the entry went out of use with the deed. -/
inductive Noted (i : Nat) (entry : Bytes) (row : RowHandle) (deed : Deed) : Prop
  | logged (note : ⟨deed.statement, tid, .outdated i entry row⟩ ∈ work.log deed.transaction)
  | waiting {sequence : Int} (committed : c.CommittedAt deed.transaction sequence)
    (note : ⟨i, entry, row, sequence⟩ ∈ table.outdated)
  /-- Everybody sees the deed, and reclamation may have dealt with the note. -/
  | past {sequence : Int} (committed : c.CommittedAt deed.transaction sequence)
    (seen : sequence ≤ l.horizon)

/-- A record on top of another one has its key, or the entry of the one below is noted. -/
structure Follows (row : RowHandle) (later earlier : Deed) : Prop where
  stays : ∀ {i : Nat} {spec : KeySpec} {key : Bytes}, table.spec? i = some spec →
    later.record?.isSome = true → earlier.Gives spec key →
      later.Gives spec key ∨ Noted l work c tid table i (Key.entry key row) row later

/-- Somebody is going to take the entry out when it is time. -/
inductive Covered (i : Nat) (entry : Bytes) (row : RowHandle) : Prop
  /-- A running transaction has bound it. -/
  | pending {id : Int} {s : Nat} (bound : ⟨s, tid, .bound i entry row⟩ ∈ work.log id)
  /-- It is that of the last record that was committed of the row. -/
  | last {spec : KeySpec} {key : Bytes} (here : table.spec? i = some spec)
    (gives : Deed.LastGives (c.settled tid row) spec key) (eq : entry = Key.entry key row)
  | outdated {sequence : Int} (note : ⟨i, entry, row, sequence⟩ ∈ table.outdated)

/-- The entries of a table are accounted for by the deeds to its rows. -/
structure Accounted : Prop where
  follows : ∀ (id : Int) (row : RowHandle),
    (c.writes id tid row ++ c.settled tid row).IsChain (Follows l work c tid table row)
  /-- A transaction has bound an entry for a record that it gave the row. -/
  bound : ∀ {id : Int} {s i : Nat} {entry : Bytes} {row : RowHandle},
    ⟨s, tid, .bound i entry row⟩ ∈ work.log id → ∃ spec key, table.spec? i = some spec ∧
      entry = Key.entry key row ∧ ∃ deed ∈ c.writes id tid row, deed.statement = s ∧
        deed.Gives spec key
  logged : ∀ {id : Int} {s i : Nat} {entry : Bytes} {row : RowHandle},
    ⟨s, tid, .outdated i entry row⟩ ∈ work.log id →
      ∃ deed ∈ c.writes id tid row, deed.statement = s
  outdated : ∀ note ∈ table.outdated,
    ∃ deed ∈ c.settled tid note.row, c.CommittedAt deed.transaction note.sequence
  /-- A row that is deleted and still there is waiting to be purged. -/
  deleted : ∀ {row : RowHandle} {deed : Deed} {earlier : List Deed},
    c.settled tid row = deed :: earlier → deed.record? = none → table.chainOf row ≠ [] →
      ∃ sequence, (row, sequence) ∈ table.pendingDeletes
  linked : ∀ {i : Nat} {entry : Bytes} {row : RowHandle}, table.Bears i entry row →
    table.chainOf row ≠ []
  covered : ∀ {i : Nat} {entry : Bytes} {row : RowHandle}, table.Bears i entry row →
    Covered work c tid table i entry row

end Bookkeeping

section Walk

variable {l : Ledger} {work : Work} {c : Chronicle} {tid : TableId} {table : Table} {i : Nat}
  {row : RowHandle} {deed : Deed} {later earlier : List Deed} {spec : KeySpec} {key : Bytes}

/-- The last record has the key that an earlier one had, or a note was made on the way. -/
theorem exists_noted
    (follows : (later ++ deed :: earlier).IsChain (Follows l work c tid table row))
    (records : ∀ d ∈ (later ++ deed :: earlier).tail, d.record?.isSome = true)
    (here : table.spec? i = some spec) (gives : deed.Gives spec key) :
    Deed.LastGives (later ++ deed :: earlier) spec key ∨
      ∃ d ∈ later, d.record?.isSome = true ∧
        Noted l work c tid table i (Key.entry key row) row d := by
  induction later with
  | nil => exact Or.inl ⟨deed, List.find?_cons_of_pos gives.isSome, gives⟩
  | cons last later ih =>
    rw [List.cons_append] at follows records ⊢
    obtain ⟨hlast, hrest⟩ := List.isChain_cons.mp follows
    rcases ih hrest fun d hd => records d (List.mem_of_mem_tail hd) with
      ⟨found, hfound, hgives⟩ | ⟨d, hd, hnoted⟩
    · cases hrecord : last.record? with
      | none =>
        refine Or.inl ⟨found, ?_, hgives⟩
        rw [List.find?_cons_of_neg (by rw [hrecord]; exact Bool.false_ne_true)]
        exact hfound
      | some record =>
        -- Below a record there are records alone, so the one found is the next.
        have hsome : last.record?.isSome = true := by
          rw [hrecord]
          rfl
        have hnext : (later ++ deed :: earlier).head? = some found := by
          cases hall : later ++ deed :: earlier with
          | nil => simp at hall
          | cons first rest =>
            rw [hall] at hfound records
            have hfirst : (first :: rest).find? (·.record?.isSome) = some first :=
              List.find?_cons_of_pos (records first List.mem_cons_self)
            exact hfirst.symm.trans hfound
        rcases (hlast found hnext).stays here hsome hgives with hkeeps | hnoted
        · exact Or.inl ⟨last, List.find?_cons_of_pos hsome, hkeeps⟩
        · exact Or.inr ⟨last, List.mem_cons_self, hsome, hnoted⟩
    · exact Or.inr ⟨d, List.mem_cons_of_mem _ hd, hnoted⟩

end Walk

/-! ## 2. What makes no difference -/

variable {l l' : Ledger} {work work' : Work} {c c' : Chronicle} {tid : TableId}
  {table after : Table} {i : Nat} {entry : Bytes} {row : RowHandle} {deed later earlier : Deed}

theorem spec?_eq_some {spec : KeySpec} : table.spec? i = some spec ↔
    ∃ index, table.indexes[i]? = some index ∧ index.spec = spec := Option.map_eq_some_iff

/-- A note stays until everybody sees what it is of. -/
theorem Noted.goes_on (h : Noted l work c tid table i entry row deed)
    (hlog : ⟨deed.statement, tid, .outdated i entry row⟩ ∈ work.log deed.transaction →
      Noted l' work' c' tid after i entry row deed)
    (hcommitted : ∀ {id s : Int}, c.CommittedAt id s → c'.CommittedAt id s)
    (hhorizon : l.horizon ≤ l'.horizon)
    (houtdated : ∀ note ∈ table.outdated, note ∈ after.outdated ∨ note.sequence ≤ l'.horizon) :
    Noted l' work' c' tid after i entry row deed := by
  cases h with
  | logged note => exact hlog note
  | waiting committed note =>
    rcases houtdated _ note with hstays | hseen
    · exact .waiting (hcommitted committed) hstays
    · exact .past (hcommitted committed) hseen
  | past committed seen => exact .past (hcommitted committed) (Int.le_trans seen hhorizon)

theorem Follows.goes_on (h : Follows l work c tid table row later earlier)
    (hspec : ∀ {i : Nat} {spec : KeySpec}, after.spec? i = some spec → table.spec? i = some spec)
    (hnoted : ∀ {i : Nat} {entry : Bytes}, Noted l work c tid table i entry row later →
      Noted l' work' c' tid after i entry row later) :
    Follows l' work' c' tid after row later earlier where
  stays here hsome gives := (h.stays (hspec here) hsome gives).imp_right hnoted

/-- As many indexes, of the same keys. -/
theorem spec?_eq (count : after.indexes.length = table.indexes.length)
    (hindexes : ∀ {i : Nat} {index : Index}, table.indexes[i]? = some index →
      ∃ index', after.indexes[i]? = some index' ∧ index'.spec = index.spec) (i : Nat) :
    after.spec? i = table.spec? i := by
  cases hindex : table.indexes[i]? with
  | none =>
    have hnone : after.indexes[i]? = none := by
      rw [List.getElem?_eq_none_iff] at hindex ⊢
      rwa [count]
    rw [spec?, spec?, hindex, hnone]
  | some index =>
    obtain ⟨index', hindex', hsame⟩ := hindexes hindex
    rw [spec?, spec?, hindex, hindex', Option.map_some, Option.map_some, hsame]

theorem Unchanged.spec? (h : table.Unchanged after) (i : Nat) : after.spec? i = table.spec? i := by
  refine spec?_eq h.indexCount (fun hindex => ?_) i
  obtain ⟨index', hindex', hsame⟩ := h.indexes hindex
  exact ⟨index', hindex', hsame.spec⟩

theorem Unchanged.bears (h : table.Unchanged after) (hbears : after.Bears i entry row) :
    table.Bears i entry row := by
  obtain ⟨index', hindex', hget⟩ := hbears
  obtain ⟨index, hindex, hsame⟩ := h.index_back hindex'
  rw [hsame.get] at hget
  exact ⟨index, hindex, hget⟩

/-- All stays accounted for while the deeds, the logs and the table stay. -/
theorem Accounted.goes_on (h : Accounted l work c tid table)
    (hhorizon : l.horizon ≤ l'.horizon)
    (hlog : ∀ {id : Int} {s : Nat} {write : Write},
      ⟨s, tid, write⟩ ∈ work'.log id ↔ ⟨s, tid, write⟩ ∈ work.log id)
    (hwrites : ∀ id row, c'.writes id tid row = c.writes id tid row)
    (hsettled : ∀ row, c'.settled tid row = c.settled tid row)
    (hcommitted : ∀ {id s : Int}, c.CommittedAt id s → c'.CommittedAt id s)
    (unchanged : table.Unchanged after) : Accounted l' work' c' tid after where
  follows id row := by
    rw [hwrites, hsettled]
    refine (h.follows id row).imp fun later earlier hfollows => hfollows.goes_on ?_ ?_
    · intro i spec here
      exact (unchanged.spec? i).symm.trans here
    · intro i entry hnoted
      refine hnoted.goes_on (fun note => .logged (hlog.mpr note)) hcommitted hhorizon ?_
      intro note hnote
      exact Or.inl (unchanged.outdated ▸ hnote)
  bound hin := by
    rw [unchanged.spec?, hwrites]
    exact h.bound (hlog.mp hin)
  logged hin := by
    rw [hwrites]
    exact h.logged (hlog.mp hin)
  outdated note hnote := by
    rw [unchanged.outdated] at hnote
    obtain ⟨deed, hdeed, hat⟩ := h.outdated note hnote
    exact ⟨deed, hsettled _ ▸ hdeed, hcommitted hat⟩
  deleted {row deed earlier} hall hnone hthere := by
    rw [hsettled] at hall
    rw [unchanged.chainOf] at hthere
    rw [unchanged.pendingDeletes]
    exact h.deleted hall hnone hthere
  linked hbears := by
    rw [unchanged.chainOf]
    exact h.linked (unchanged.bears hbears)
  covered {i entry row} hbears := by
    cases h.covered (unchanged.bears hbears) with
    | pending bound => exact .pending (hlog.mpr bound)
    | last here gives eq =>
      exact .last ((unchanged.spec? i).trans here) (hsettled row ▸ gives) eq
    | outdated note => exact .outdated (unchanged.outdated ▸ note)

/-! ## 3. A deed more -/

/-- What a deed to a row on top of others does to the books, and what its writer remembers of that. -/
structure Booked (table : Table) (row : RowHandle) (deeds : List Deed) (deed : Deed)
    (writes : List Write) (after : Table) : Prop where
  spec : ∀ i, after.spec? i = table.spec? i
  outdated : after.outdated = table.outdated
  pendingDeletes : after.pendingDeletes = table.pendingDeletes
  elsewhere : ∀ other, other ≠ row → after.chainOf other = table.chainOf other
  there : after.chainOf row ≠ []
  bears : ∀ {i : Nat} {entry : Bytes} {r : RowHandle}, after.Bears i entry r →
    table.Bears i entry r ∨ .bound i entry r ∈ writes
  bound : ∀ {i : Nat} {entry : Bytes} {r : RowHandle}, .bound i entry r ∈ writes →
    r = row ∧ ∃ spec key, table.spec? i = some spec ∧ entry = Key.entry key row ∧ deed.Gives spec key
  outdates : ∀ {i : Nat} {entry : Bytes} {r : RowHandle}, .outdated i entry r ∈ writes → r = row
  follows : ∀ earlier ∈ deeds.head?, ∀ {i : Nat} {spec : KeySpec} {key : Bytes},
    table.spec? i = some spec → deed.record?.isSome = true → earlier.Gives spec key →
      deed.Gives spec key ∨ .outdated i (Key.entry key row) row ∈ writes

section Booking

variable {id : Int} {txn : Transaction} {record? : Option Record} {writes : List Write}

theorem mem_writes_wrote {other : Int} {tid' : TableId} {r : RowHandle}
    (h : deed ∈ c.writes other tid r) :
    deed ∈ (c.tell (.wrote id tid' row record?)).writes other tid r := by
  rw [Chronicle.writes_wrote]
  split
  · exact List.mem_cons_of_mem _ h
  · exact h

section Deed

variable (running : work id = some txn) (hstatement : c.statement id = txn.statement)
  (booked : Booked table row (c.writes id tid row ++ c.settled tid row)
    ⟨id, c.statement id, tid, row, record?⟩ writes after)
include running booked

/-- Neighbours follow one another as before. -/
theorem Booked.keeps_follows {r : RowHandle} {later earlier : Deed}
    (follows : Follows l work c tid table r later earlier) :
    Follows l (Function.update work id (some (txn.remember tid writes)))
      (c.tell (.wrote id tid row record?)) tid after r later earlier := by
  refine follows.goes_on (fun here => (booked.spec _).symm.trans here) fun hnoted => ?_
  refine hnoted.goes_on (fun note => .logged ((mem_log_remembering running).mpr (Or.inr note)))
    (fun hat => hat) (Int.le_refl _) ?_
  intro note hnote
  rw [booked.outdated]
  exact Or.inl hnote

include hstatement

/-- The deed comes on top of its row, and all others stay below one another. -/
theorem Booked.chain_follows (h : Accounted l work c tid table) (other : Int) (r : RowHandle) :
    ((c.tell (.wrote id tid row record?)).writes other tid r ++ c.settled tid r).IsChain
      (Follows l (Function.update work id (some (txn.remember tid writes)))
        (c.tell (.wrote id tid row record?)) tid after r) := by
  by_cases hhere : other = id ∧ r = row
  · rw [hhere.1, hhere.2, Chronicle.writes_wrote, if_pos ⟨rfl, rfl, rfl⟩, List.cons_append]
    refine List.isChain_cons.mpr ⟨fun earlier hearlier => ⟨fun here hsome gives => ?_⟩, ?_⟩
    · refine (booked.follows earlier hearlier ((booked.spec _).symm.trans here) hsome gives).imp_right ?_
      intro hwrite
      refine .logged ((mem_log_remembering running).mpr (Or.inl ⟨rfl, _, hwrite, ?_⟩))
      rw [hstatement]
    · exact (h.follows id row).imp fun _ _ => booked.keeps_follows running
  · rw [Chronicle.writes_wrote, if_neg fun hwhere => hhere ⟨hwhere.1, hwhere.2.2⟩]
    exact (h.follows other r).imp fun _ _ => booked.keeps_follows running

omit hstatement in
/-- Every entry is one of before, or bound by the deed. -/
theorem Booked.covered (h : Accounted l work c tid table) {i : Nat} {entry : Bytes} {r : RowHandle}
    (hbears : after.Bears i entry r) :
    Covered (Function.update work id (some (txn.remember tid writes)))
      (c.tell (.wrote id tid row record?)) tid after i entry r := by
  rcases booked.bears hbears with hbefore | hwrite
  · cases h.covered hbefore with
    | pending bound => exact .pending ((mem_log_remembering running).mpr (Or.inr bound))
    | last here gives eq => exact .last ((booked.spec i).trans here) gives eq
    | outdated note => exact .outdated (booked.outdated ▸ note)
  · exact .pending ((mem_log_remembering running).mpr (Or.inl ⟨rfl, _, hwrite, rfl⟩))

end Deed

/-- A deed that is booked keeps the books in order. -/
theorem Accounted.booked (h : Accounted l work c tid table) (running : work id = some txn)
    (hstatement : c.statement id = txn.statement)
    (records : ∀ d ∈ c.writes id tid row ++ c.settled tid row, d.record?.isSome = true)
    (booked : Booked table row (c.writes id tid row ++ c.settled tid row)
      ⟨id, c.statement id, tid, row, record?⟩ writes after) :
    Accounted l (Function.update work id (some (txn.remember tid writes)))
      (c.tell (.wrote id tid row record?)) tid after := by
  have hsettled : ∀ r, (c.tell (.wrote id tid row record?)).settled tid r = c.settled tid r :=
    fun _ => rfl
  have hdeed : ⟨id, c.statement id, tid, row, record?⟩ ∈
      (c.tell (.wrote id tid row record?)).writes id tid row := by
    rw [Chronicle.writes_wrote, if_pos ⟨rfl, rfl, rfl⟩]
    exact List.mem_cons_self
  refine ⟨booked.chain_follows running hstatement h, fun {other s i entry r} hin => ?bound,
    fun {other s i entry r} hin => ?logged, fun note hnote => ?outdated,
    fun {r deed earlier} hall hnone hthere => ?deleted, fun {i entry r} hbears => ?linked,
    booked.covered running h⟩
  case bound =>
    rw [booked.spec]
    rcases (mem_log_remembering running).mp hin with ⟨rfl, write, hwrite, heq⟩ | hin
    · cases heq
      obtain ⟨rfl, spec, key, here, hentry, gives⟩ := booked.bound hwrite
      exact ⟨spec, key, here, hentry, _, hdeed, hstatement, gives⟩
    · obtain ⟨spec, key, here, hentry, deed, hdeed, hs, gives⟩ := h.bound hin
      exact ⟨spec, key, here, hentry, deed, mem_writes_wrote hdeed, hs, gives⟩
  case logged =>
    rcases (mem_log_remembering running).mp hin with ⟨rfl, write, hwrite, heq⟩ | hin
    · cases heq
      cases booked.outdates hwrite
      exact ⟨_, hdeed, hstatement⟩
    · obtain ⟨deed, hdeed, hs⟩ := h.logged hin
      exact ⟨deed, mem_writes_wrote hdeed, hs⟩
  case outdated =>
    rw [booked.outdated] at hnote
    exact h.outdated note hnote
  case deleted =>
    rw [booked.pendingDeletes]
    by_cases hrow : r = row
    · -- Nobody writes to a row that is deleted.
      rw [hrow, hsettled] at hall
      have hsome := records deed (List.mem_append_right _ (by rw [hall]; exact List.mem_cons_self))
      rw [hnone] at hsome
      cases hsome
    · rw [booked.elsewhere r hrow] at hthere
      exact h.deleted hall hnone hthere
  case linked =>
    by_cases hrow : r = row
    · rw [hrow]
      exact booked.there
    · rw [booked.elsewhere r hrow]
      rcases booked.bears hbears with hbefore | hwrite
      · exact h.linked hbefore
      · exact absurd (booked.bound hwrite).1 hrow

end Booking

section Wrote

variable {txn : Transaction} {record : Record} {old? : Option Record} {writes : List Write}
  {r : RowHandle} {spec : KeySpec} {key : Bytes}
  (wrote : Wrote l txn table row record old? after writes)
include wrote

/-- A writer has bound every entry that has come with a new version. -/
theorem Wrote.bears (hbears : after.Bears i entry r) :
    table.Bears i entry r ∨ .bound i entry r ∈ writes := by
  obtain ⟨index', hindex', hget⟩ := hbears
  obtain ⟨index, _, _, hindex, _⟩ := wrote.index_back hindex'
  obtain ⟨key, trie, hafter, _, hbinds, hnew, _⟩ := wrote.indexes hindex
  cases hindex'.symm.trans hafter
  change trie.get? entry = some r at hget
  rw [hbinds.get] at hget
  split at hget
  · rename_i heq
    cases hold : index.trie.get? entry with
    | none =>
      rw [hold] at hget
      cases hget
      rw [heq] at hold ⊢
      exact Or.inr (hnew hold)
    | some found =>
      rw [hold] at hget
      cases hget
      exact Or.inl ⟨index, hindex, hold⟩
  · exact Or.inl ⟨index, hindex, hget⟩

/-- A new version has the key of the record below, or its writer has noted the entry. -/
theorem Wrote.follows (ok : Ok l work tid [] table) {deeds : List Deed}
    (shows : Chain.Shows l (earlier :: deeds) (table.chainOf row)) (here : table.spec? i = some spec)
    (gives : earlier.Gives spec key) :
    spec.keyOf record = .ok key ∨ .outdated i (Key.entry key row) row ∈ writes := by
  obtain ⟨index, hindex, rfl⟩ := spec?_eq_some.mp here
  obtain ⟨old, hold, hkeyOf⟩ := gives
  -- The record below is that of the newest version, which the index was told.
  obtain ⟨v, older, hchain⟩ := shows.exists_newest fun hnone => by
    rw [hold] at hnone
    cases hnone
  rw [hchain] at shows
  obtain ⟨rfl, _⟩ := shows.newest_record hold
  obtain ⟨own, hown⟩ := (ok.indexes hindex).keyed (hchain ▸ List.mem_cons_self : v ∈ _)
  cases hown.1.symm.trans hkeyOf
  obtain ⟨now, _, _, hnow, _, _, _, hnoted⟩ := wrote.indexes hindex
  have hold? : old? = some v.record := by
    rw [wrote.old, hchain]
    rfl
  rcases hnoted v.record _ hold? hown with rfl | hwrite
  · exact Or.inl hnow.1
  · exact Or.inr hwrite

/-- Where there is a new version the books say what each index was told. -/
theorem Wrote.booked (ok : Ok l work tid [] table) {deeds : List Deed}
    (shows : Chain.Shows l deeds (table.chainOf row)) (hrecord : deed.record? = some record) :
    Booked table row deeds deed writes after := by
  obtain ⟨more, hmade, hmore⟩ := wrote.made
  have hstep : ∀ {write : Write}, write ∈ writes → write.row? = none → ∃ i index key,
      table.indexes[i]? = some index ∧ index.spec.Keyed table.maxKeyLength record key ∧
        IsStepWrite i index key row write := by
    intro write hwrite hrow
    rw [hmade] at hwrite
    rcases List.mem_cons.mp hwrite with rfl | hwrite
    · cases hrow
    · exact hmore write hwrite
  refine ⟨fun i => ?spec, wrote.outdated, wrote.pendingDeletes, fun other hne => ?elsewhere, ?there,
    wrote.bears, fun {i entry r} hwrite => ?bound, fun {i entry r} hwrite => ?outdates,
    fun earlier hearlier {i spec key} here _ gives => ?follows⟩
  case spec =>
    refine spec?_eq wrote.indexCount (fun hindex => ?_) i
    obtain ⟨_, _, hafter, _⟩ := wrote.indexes hindex
    exact ⟨_, hafter, rfl⟩
  case elsewhere => rw [wrote.chainOf, if_neg hne]
  case there =>
    rw [wrote.chainOf, if_pos rfl]
    exact List.cons_ne_nil _ _
  case bound =>
    obtain ⟨_, index, key, hindex, hkey, ⟨heq, _⟩ | ⟨_, heq⟩⟩ := hstep hwrite rfl
    · cases heq
      exact ⟨rfl, index.spec, key, spec?_eq_some.mpr ⟨index, hindex, rfl⟩, rfl, record, hrecord,
        hkey.1⟩
    · cases heq
  case outdates =>
    obtain ⟨_, _, _, _, _, ⟨heq, _⟩ | ⟨_, heq⟩⟩ := hstep hwrite rfl
    · cases heq
    · cases heq
      rfl
  case follows =>
    obtain ⟨rest, rfl⟩ := List.head?_eq_some_iff.mp hearlier
    exact (wrote.follows ok shows here gives).imp_left fun hkey => ⟨record, hrecord, hkey⟩

end Wrote

/-- A deletion is not booked before it is committed. -/
theorem booked_marked {newest : Version} {deleted : Chain} (deeds : List Deed)
    (there : deleted ≠ []) (hrecord : deed.record? = none) :
    Booked table row deeds deed [.marked row newest.id] (table.withChain row deleted) where
  spec _ := rfl
  outdated := rfl
  pendingDeletes := rfl
  elsewhere other hne := by rw [chainOf_withChain, if_neg hne]
  there := by
    rw [chainOf_withChain, if_pos rfl]
    exact there
  bears hbears := Or.inl hbears
  bound hwrite := by
    cases List.mem_singleton.mp hwrite
  outdates hwrite := by
    cases List.mem_singleton.mp hwrite
  follows _ _ {_ _ _} _ hsome _ := by
    rw [hrecord] at hsome
    cases hsome

end Table
end SnapshotStore
