import Mathlib
import SnapshotStore.Proofs.Trie.Scan

/-!
# Cursors as queries

Whoever works with a trie and with cursors over it learns what the entries are that the cursors show.
They would learn the same from a plain map of keys, if each cursor were no more than the last key that
it has shown: a move asks the map, as it is at that time, for the next key (`Query`). Frames, places and
revisions do not come into it, and neither does what has happened to the map in between.

`Bench.ideal` forgets all that a cursor keeps besides, and `Bench.run_iff_ideal` says that what is done to a
trie and its cursors runs as it does on the ideal, which has no choice either.
-/

namespace SnapshotStore

/-! ## 1. A map that is searched -/

/-- A change of what is bound. -/
inductive Edit where
  | put (key : Bytes) (handle : RowHandle)
  | putIfAbsent (key : Bytes) (handle : RowHandle)
  /-- Unbind the key if it is bound to `expected`. -/
  | remove (key : Bytes) (expected : RowHandle)

/-- The rows that keys are bound to. -/
abbrev Bindings := Bytes → Option RowHandle

namespace Bindings

/-- The bindings after a change. -/
def edit (bindings : Bindings) : Edit → Bindings
  | .put key handle => Function.update bindings key (some handle)
  | .putIfAbsent key handle =>
    if bindings key = none then Function.update bindings key (some handle) else bindings
  | .remove key expected =>
    if bindings key = some expected then Function.update bindings key none else bindings

/-- What comes first in scan order among the bound keys of a set; nothing, if none of them is
bound. -/
def First (bindings : Bindings) (direction : Direction) (among : Bytes → Prop) :
    Option (Bytes × RowHandle) → Prop
  | none => ∀ key, among key → bindings key = none
  | some (key, handle) =>
    among key ∧ bindings key = some handle ∧
      ∀ other, among other → bindings other ≠ none → other ≠ key → direction.After key other

/-- Only one binding comes first. -/
theorem First.unique {bindings : Bindings} {direction : Direction} {among : Bytes → Prop}
    {x y : Option (Bytes × RowHandle)} (hx : bindings.First direction among x)
    (hy : bindings.First direction among y) : x = y := by
  have hfound : ∀ {key : Bytes} {handle : RowHandle},
      bindings.First direction among (some (key, handle)) →
        ¬ bindings.First direction among none := by
    rintro key handle ⟨hkey, hbound, _⟩ hnone
    rw [hnone key hkey] at hbound
    cases hbound
  cases x with
  | none =>
    cases y with
    | none => rfl
    | some entry => exact absurd hx (hfound hy)
  | some entry =>
    cases y with
    | none => exact absurd hy (hfound hx)
    | some other =>
      obtain ⟨key, handle⟩ := entry
      obtain ⟨key', handle'⟩ := other
      obtain ⟨hkey, hbound, hleast⟩ := hx
      obtain ⟨hkey', hbound', hleast'⟩ := hy
      have heq : key' = key := by
        by_contra hne
        have hafter := hleast key' hkey' (by rw [hbound']; exact Option.some_ne_none _) hne
        have hafter' := hleast' key hkey (by rw [hbound]; exact Option.some_ne_none _)
          (Ne.symm hne)
        exact hafter.asymm hafter'
      subst heq
      rw [hbound] at hbound'
      rw [Option.some.inj hbound']

end Bindings

/-- A cursor as its user knows it. -/
structure Query where
  direction : Direction
  /-- The scan is over the keys that begin with these bytes. -/
  beginning : Bytes := []
  /-- The last key shown, if the scan has not ended. -/
  last : Option Bytes

namespace Query

/-- The query after a search. -/
def moved (query : Query) (found : Option (Bytes × RowHandle)) : Query :=
  { query with last := found.map Prod.fst }

end Query

/-! ## 2. What is done to a trie and its cursors -/

namespace Trie

/-- Something done to a trie or to one of the cursors over it, which are numbered in the order in
which they come to be. -/
inductive Act where
  | edit (edit : Edit)
  | scan (start : Bytes) (inclusive : Bool) (direction : Direction)
  | scanBeginning (beginning : Bytes)
  | clone (cursor : Nat)
  | next (cursor : Nat)

/-- What a cursor shows after it was opened or moved. -/
structure Answer where
  entry : Option (Bytes × RowHandle)
  exhausted : Bool

/-- The answer to a search. -/
def Answer.of (found : Option (Bytes × RowHandle)) : Answer := ⟨found, found.isNone⟩

/-- The trie after a change. -/
def edit (trie : Trie) : Edit → Trie
  | .put key handle => (trie.put key handle).1
  | .putIfAbsent key handle => (trie.putIfAbsent key handle).1
  | .remove key expected => (trie.remove key expected).1

/-- A trie and the cursors over it. -/
structure Bench where
  trie : Trie := {}
  cursors : List Cursor := []

namespace Bench

/-- Adds a cursor and shows its entry. -/
def opened (bench : Bench) (cursor : Cursor) : Bench × Option Answer :=
  ({ bench with cursors := bench.cursors ++ [cursor] }, some ⟨cursor.current, cursor.exhausted⟩)

/-- Does something, and says what the cursor that was opened or moved shows. -/
def act (bench : Bench) : Act → Bench × Option Answer
  | .edit edit => ({ bench with trie := bench.trie.edit edit }, none)
  | .scan start inclusive direction => bench.opened (bench.trie.scan start inclusive direction)
  | .scanBeginning beginning => bench.opened (bench.trie.scanBeginning beginning)
  | .clone cursor =>
    ({ bench with cursors := bench.cursors ++ bench.cursors[cursor]?.toList }, none)
  | .next number =>
    match bench.cursors[number]? with
    | none => (bench, none)
    | some cursor =>
      let moved := cursor.next bench.trie
      ({ bench with cursors := bench.cursors.set number moved },
        some ⟨moved.current, moved.exhausted⟩)

/-- Does one thing after another. -/
def run (bench : Bench) : List Act → Bench × List (Option Answer)
  | [] => (bench, [])
  | act :: acts =>
    let (bench, answer) := bench.act act
    let (bench, answers) := bench.run acts
    (bench, answer :: answers)

end Bench

/-! ## 3. The same on a plain map -/

/-- Bindings and the queries that are put to them. -/
structure Ideal where
  bindings : Bindings := fun _ => none
  queries : List Query := []

namespace Ideal

/-- What is done to bindings and queries, and the answer. -/
inductive Step : Ideal → Act → Option Answer → Ideal → Prop
  | edit {bindings : Bindings} {queries : List Query} (edit : Edit) :
    Step ⟨bindings, queries⟩ (.edit edit) none ⟨bindings.edit edit, queries⟩
  /-- The first key at or past the start, or past it. -/
  | scan {bindings : Bindings} {queries : List Query} {start : Bytes} {inclusive : Bool}
    {direction : Direction} {found : Option (Bytes × RowHandle)}
    (first : bindings.First direction
      (fun key => inclusive = true ∧ key = start ∨ direction.After start key) found) :
    Step ⟨bindings, queries⟩ (.scan start inclusive direction) (some (.of found))
      ⟨bindings, queries ++ [⟨direction, [], found.map Prod.fst⟩]⟩
  /-- The least key that begins with the bytes. -/
  | scanBeginning {bindings : Bindings} {queries : List Query} {beginning : Bytes}
    {found : Option (Bytes × RowHandle)}
    (first : bindings.First .forward (beginning <+: ·) found) :
    Step ⟨bindings, queries⟩ (.scanBeginning beginning) (some (.of found))
      ⟨bindings, queries ++ [⟨.forward, beginning, found.map Prod.fst⟩]⟩
  | clone {bindings : Bindings} {queries : List Query} (number : Nat) :
    Step ⟨bindings, queries⟩ (.clone number) none
      ⟨bindings, queries ++ queries[number]?.toList⟩
  /-- The next key past the last one shown, within the range. -/
  | next {bindings : Bindings} {queries : List Query} {number : Nat} {query : Query} {last : Bytes}
    {found : Option (Bytes × RowHandle)} (here : queries[number]? = some query)
    (shown : query.last = some last)
    (first : bindings.First query.direction
      (fun key => query.direction.After last key ∧ query.beginning <+: key) found) :
    Step ⟨bindings, queries⟩ (.next number) (some (.of found))
      ⟨bindings, queries.set number (query.moved found)⟩
  /-- A scan that has ended stays so, whatever is bound. -/
  | ended {bindings : Bindings} {queries : List Query} {number : Nat} {query : Query}
    (here : queries[number]? = some query) (shown : query.last = none) :
    Step ⟨bindings, queries⟩ (.next number) (some (.of none)) ⟨bindings, queries⟩
  | unknown {bindings : Bindings} {queries : List Query} {number : Nat}
    (unknown : queries[number]? = none) :
    Step ⟨bindings, queries⟩ (.next number) none ⟨bindings, queries⟩

/-- One step after another. -/
inductive Run : Ideal → List Act → List (Option Answer) → Ideal → Prop
  | done {ideal : Ideal} : Run ideal [] [] ideal
  | step {ideal middle last : Ideal} {act : Act} {acts : List Act} {answer : Option Answer}
    {answers : List (Option Answer)} (first : Step ideal act answer middle)
    (rest : Run middle acts answers last) : Run ideal (act :: acts) (answer :: answers) last

variable {ideal last last' : Ideal} {act : Act} {acts : List Act}

/-- The ideal has no choice. -/
theorem Step.unique {answer answer' : Option Answer} (h : Step ideal act answer last)
    (h' : Step ideal act answer' last') : answer = answer' ∧ last = last' := by
  cases h with
  | edit edit =>
    cases h'
    exact ⟨rfl, rfl⟩
  | scan first =>
    cases h' with
    | scan first' =>
      cases first.unique first'
      exact ⟨rfl, rfl⟩
  | scanBeginning first =>
    cases h' with
    | scanBeginning first' =>
      cases first.unique first'
      exact ⟨rfl, rfl⟩
  | clone number =>
    cases h'
    exact ⟨rfl, rfl⟩
  | next here shown first =>
    cases h' with
    | next here' shown' first' =>
      cases here.symm.trans here'
      cases shown.symm.trans shown'
      cases first.unique first'
      exact ⟨rfl, rfl⟩
    | ended here' shown' =>
      cases here.symm.trans here'
      cases shown.symm.trans shown'
    | unknown unknown => cases here.symm.trans unknown
  | ended here shown =>
    cases h' with
    | next here' shown' _ =>
      cases here.symm.trans here'
      cases shown.symm.trans shown'
    | ended => exact ⟨rfl, rfl⟩
    | unknown unknown => cases here.symm.trans unknown
  | unknown unknown =>
    cases h' with
    | next here _ _ => cases unknown.symm.trans here
    | ended here _ => cases unknown.symm.trans here
    | unknown => exact ⟨rfl, rfl⟩

theorem Run.unique {answers answers' : List (Option Answer)} (h : Run ideal acts answers last)
    (h' : Run ideal acts answers' last') : answers = answers' ∧ last = last' := by
  induction h generalizing answers' with
  | done =>
    cases h'
    exact ⟨rfl, rfl⟩
  | step first _ ih =>
    cases h' with
    | step first' rest' =>
      obtain ⟨rfl, rfl⟩ := first.unique first'
      obtain ⟨rfl, rfl⟩ := ih rest'
      exact ⟨rfl, rfl⟩

end Ideal

/-! ## 4. A trie and its cursors do what the ideal does -/

/-- What is found among the keys of a trie comes first among its bindings. -/
theorem Finds.first {trie : Trie} {direction : Direction} {among : Bytes → Prop}
    {found : Option (Bytes × RowHandle)} (h : trie.Finds direction among found) :
    Bindings.First trie.get? direction among found := by
  cases found with
  | none => exact h
  | some entry =>
    obtain ⟨hkey, hbound, hleast⟩ := h
    refine ⟨hkey, hbound, fun other hother hsome hne => ?_⟩
    exact (hleast other hother (Option.isSome_iff_ne_none.mpr hsome)).resolve_left hne

/-- A change of a trie changes its bindings, and links stay. -/
theorem edit_spec {trie : Trie} (tree : trie.pool.IsTree) (edit : Edit) :
    (trie.edit edit).pool.IsTree ∧ trie.Extends (trie.edit edit) ∧
      (trie.edit edit).get? = Bindings.edit trie.get? edit := by
  cases edit with
  | put key handle =>
    obtain ⟨htree, hextends, _, hget⟩ := put_spec tree key handle
    refine ⟨htree, hextends, funext fun other => (hget other).trans ?_⟩
    exact (Function.update_apply _ _ _ _).symm
  | putIfAbsent key handle =>
    obtain ⟨htree, hextends, _, hget⟩ := putIfAbsent_spec tree key handle
    refine ⟨htree, hextends, funext fun other => (hget other).trans ?_⟩
    rw [Bindings.edit]
    cases hkey : trie.get? key with
    | none => exact (Function.update_apply _ _ _ _).symm
    | some owner =>
      rw [if_neg (Option.some_ne_none owner), Option.getD_some]
      split
      · rename_i heq
        rw [heq, hkey]
      · rfl
  | remove key expected =>
    obtain ⟨htree, hextends, _, hget⟩ := remove_spec tree key expected
    refine ⟨htree, hextends, funext fun other => (hget other).trans ?_⟩
    rw [Bindings.edit]
    by_cases hbound : trie.get? key = some expected
    · rw [if_pos hbound, Function.update_apply]
      exact if_congr (and_iff_left hbound) rfl rfl
    · rw [if_neg hbound, if_neg fun h => hbound h.2]

/-- What the user of a cursor knows of it. -/
def Cursor.query (cursor : Cursor) : Query :=
  ⟨cursor.direction, cursor.beginning, cursor.current.map Prod.fst⟩

theorem Cursor.Sound.answer {cursor : Cursor} {trie : Trie} (sound : cursor.Sound trie) :
    (⟨cursor.current, cursor.exhausted⟩ : Answer) = .of cursor.current := by
  have hexhausted : cursor.exhausted = cursor.current.isNone := by
    rw [Bool.eq_iff_iff, ← current_eq_none_iff sound, Option.isNone_iff_eq_none]
  rw [hexhausted]
  rfl

/-- A cursor that is not exhausted rests on the key that it has shown last. -/
theorem Cursor.Sound.last_query {cursor : Cursor} {trie : Trie} (sound : cursor.Sound trie)
    (open' : cursor.exhausted = false) : cursor.query.last = some cursor.key := by
  have hsome := sound.current
  rw [open', Bool.not_false] at hsome
  obtain ⟨handle, hhandle⟩ := Option.isSome_iff_exists.mp hsome
  rw [query, Cursor.current, hhandle]
  rfl

namespace Bench

/-- A trie and its cursors as their user knows them. -/
def ideal (bench : Bench) : Ideal := ⟨bench.trie.get?, bench.cursors.map Cursor.query⟩

/-- The trie is one, and every cursor rests on a place in it. -/
structure Ok (bench : Bench) : Prop where
  tree : bench.trie.pool.IsTree
  sound : ∀ cursor ∈ bench.cursors, cursor.Sound bench.trie

theorem ok_new : Ok {} where
  tree := NodePool.isTree_empty
  sound _ h := by cases h

variable {bench : Bench} (ok : bench.Ok)
include ok

/-- A cursor comes to be at what comes first from its start. -/
theorem opened_spec {cursor moved : Cursor} {among : Bytes → Prop}
    (h : cursor.Moved bench.trie among moved) :
    (bench.opened moved).1.Ok ∧ (bench.opened moved).2 = some (.of moved.current) ∧
      (bench.opened moved).1.ideal = ⟨bench.ideal.bindings, bench.ideal.queries ++
        [⟨cursor.direction, cursor.beginning, moved.current.map Prod.fst⟩]⟩ := by
  refine ⟨⟨ok.tree, fun other hother => ?_⟩, congrArg some h.sound.answer, ?_⟩
  · rcases List.mem_append.mp hother with hother | hother
    · exact ok.sound other hother
    · rw [List.mem_singleton.mp hother]
      exact h.sound
  · simp only [opened, ideal, List.map_append, List.map_cons, List.map_nil, Cursor.query,
      h.direction, h.beginning]

/-- A cursor may move. -/
theorem Ok.set {number : Nat} {moved : Cursor} (h : moved.Sound bench.trie) :
    Ok { bench with cursors := bench.cursors.set number moved } where
  tree := ok.tree
  sound cursor hcursor := by
    rcases List.mem_or_eq_of_mem_set hcursor with hcursor | rfl
    · exact ok.sound cursor hcursor
    · exact h

/-- A cursor that moves on leaves all in order, and the ideal does the same. -/
theorem next_spec (number : Nat) : (bench.act (.next number)).1.Ok ∧
    bench.ideal.Step (.next number) (bench.act (.next number)).2
      (bench.act (.next number)).1.ideal := by
  rw [act]
  cases here : bench.cursors[number]? with
  | none =>
    refine ⟨ok, .unknown ?_⟩
    rw [List.getElem?_map, here, Option.map_none]
  | some cursor =>
    have hsound := ok.sound cursor (List.mem_of_getElem? here)
    have hquery : (bench.cursors.map Cursor.query)[number]? = some cursor.query := by
      rw [List.getElem?_map, here, Option.map_some]
    have hideal : ideal { bench with
        cursors := bench.cursors.set number (cursor.next bench.trie) } =
        ⟨bench.trie.get?, (bench.cursors.map Cursor.query).set number
          (cursor.next bench.trie).query⟩ :=
      congrArg (Ideal.mk bench.trie.get?) List.map_set
    cases hexhausted : cursor.exhausted with
    | true =>
      have hnone : cursor.current = none := (Cursor.current_eq_none_iff hsound).mpr hexhausted
      have hnext : cursor.next bench.trie = cursor.exhaust := Cursor.next_of_exhausted hexhausted
      have hsame : (cursor.next bench.trie).query = cursor.query := by
        rw [hnext, Cursor.query, Cursor.query, hnone]
        rfl
      have hstay : (bench.cursors.map Cursor.query).set number cursor.query =
          bench.cursors.map Cursor.query := by
        obtain ⟨hlt, heq⟩ := List.getElem?_eq_some_iff.mp hquery
        rw [← heq, List.set_getElem_self]
      refine ⟨ok.set (hnext ▸ Cursor.sound_exhaust cursor bench.trie), ?_⟩
      dsimp only
      rw [hideal, hsame, hstay, hnext]
      exact .ended hquery (congrArg (Option.map Prod.fst) hnone)
    | false =>
      have hmoved := Cursor.next_spec ok.tree hsound hexhausted
      refine ⟨ok.set hmoved.sound, ?_⟩
      dsimp only
      rw [hideal, hmoved.sound.answer]
      have hlast := hsound.last_query hexhausted
      have hquery' : (cursor.next bench.trie).query =
          cursor.query.moved (cursor.next bench.trie).current := by
        rw [Cursor.query, hmoved.direction, hmoved.beginning]
        rfl
      rw [hquery']
      exact .next hquery hlast hmoved.finds.first

/-- Whatever is done leaves the trie and its cursors in order, and the ideal does the same. -/
theorem act_spec (act : Act) :
    (bench.act act).1.Ok ∧ bench.ideal.Step act (bench.act act).2 (bench.act act).1.ideal := by
  cases act with
  | edit edit =>
    obtain ⟨htree, hextends, hget⟩ := edit_spec ok.tree edit
    refine ⟨⟨htree, fun cursor hcursor => (ok.sound cursor hcursor).mono hextends⟩, ?_⟩
    have hideal : (bench.act (.edit edit)).1.ideal =
        ⟨bench.ideal.bindings.edit edit, bench.ideal.queries⟩ :=
      congrArg (Ideal.mk · bench.ideal.queries) hget
    rw [hideal]
    exact .edit edit
  | scan start inclusive direction =>
    have hmoved := scan_spec ok.tree start inclusive direction
    obtain ⟨hok, hanswer, hideal⟩ := opened_spec ok hmoved
    refine ⟨hok, ?_⟩
    rw [act, hanswer, hideal]
    exact .scan (hmoved.finds.congr fun key => and_iff_left List.nil_prefix).first
  | scanBeginning beginning =>
    have hmoved := scanBeginning_spec ok.tree beginning
    obtain ⟨hok, hanswer, hideal⟩ := opened_spec ok hmoved
    refine ⟨hok, ?_⟩
    rw [act, hanswer, hideal]
    exact .scanBeginning (hmoved.finds.congr fun key => Iff.of_eq (true_and _)).first
  | clone number =>
    refine ⟨⟨ok.tree, fun cursor hcursor => ?_⟩, ?_⟩
    · rcases List.mem_append.mp hcursor with hcursor | hcursor
      · exact ok.sound cursor hcursor
      · exact ok.sound cursor (List.mem_of_getElem? (Option.mem_toList.mp hcursor))
    · have hideal : (bench.act (.clone number)).1.ideal =
          ⟨bench.ideal.bindings, bench.ideal.queries ++ bench.ideal.queries[number]?.toList⟩ := by
        simp only [act, ideal, List.map_append, List.getElem?_map, Option.toList_map]
      rw [hideal]
      exact .clone number
  | next number => exact next_spec ok number

/-- What is done one thing after another runs as it does on the ideal. -/
theorem run_spec (acts : List Act) :
    bench.ideal.Run acts (bench.run acts).2 (bench.run acts).1.ideal := by
  induction acts generalizing bench with
  | nil => exact .done
  | cons act acts ih =>
    obtain ⟨hok, hstep⟩ := act_spec ok act
    exact .step hstep (ih hok)

omit ok

/-- Whatever is done to a new trie and to cursors over it, the answers are those that a plain map and
the last keys shown determine: each cursor asks the map as it is for the next key. -/
theorem run_iff_ideal (acts : List Act) (answers : List (Option Answer)) (last : Ideal) :
    Ideal.Run {} acts answers last ↔
      (run {} acts).2 = answers ∧ (run {} acts).1.ideal = last := by
  have hnew : ideal {} = {} := congrArg (Ideal.mk · []) (funext get?_empty)
  have hrun := run_spec ok_new acts
  rw [hnew] at hrun
  constructor
  · exact fun h => hrun.unique h
  · rintro ⟨rfl, rfl⟩
    exact hrun

end Bench
end Trie
end SnapshotStore
