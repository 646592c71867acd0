import Mathlib
import SnapshotStore.Proofs.Ledger

/-!
# Forgetting makes no difference

A ledger that forgets is set against one that is asked the same and forgets nothing. Calls are what
both have in common: who was begun, who committed at which sequence and who aborted when is read off
the calls alone (`Began`, `CommittedAt`, `AbortedAt`).

What a ledger still knows of what it was asked is `Recalls`: a commit is on record, or is forgotten and
lies at or below the horizon; an abort is on record, or lies below the horizon. Each call keeps this,
because the horizon never goes down (`Recalls.ask`), and with it the two ledgers answer alike wherever
the answer matters (`run_answers`). Only an aborted transaction that is forgotten is taken for one that
committed long ago, and then no snapshot is as old as the abort.
-/

namespace SnapshotStore
namespace Ledger

open Maps

/-! ## 1. What a ledger is asked -/

/-- What is asked of a ledger. -/
inductive Call where
  | begin
  | refresh (id : Int)
  | commit (id : Int)
  | abort (id : Int)
  | prune
deriving DecidableEq

/-- The ledger after a call. -/
def ask (l : Ledger) : Call → Ledger
  | .begin =>
    match l.begin? with
    | some (begun, _, _) => begun
    | none => l
  | .refresh id => (l.refresh id).1
  | .commit id => (l.commit id).1
  | .abort id => l.abort id
  | .prune => l.prune.1

/-- Only a running transaction takes a fresh snapshot, and it comes to one end only. -/
def Call.Fits (l : Ledger) : Call → Prop
  | .begin | .prune => True
  | .refresh id | .commit id | .abort id => l.isActive id = true

/-- The ledger after several calls. -/
def run (l : Ledger) (calls : List Call) : Ledger := calls.foldl ask l

/-- Each call fits the ledger to which it is made. -/
def Orderly (l : Ledger) : List Call → Prop
  | [] => True
  | call :: calls => call.Fits l ∧ (l.ask call).Orderly calls

instance (l : Ledger) (call : Call) : Decidable (call.Fits l) :=
  match call with
  | .begin | .prune => .isTrue trivial
  | .refresh id | .commit id | .abort id => inferInstanceAs (Decidable (l.isActive id = true))

instance decidableOrderly (l : Ledger) (calls : List Call) : Decidable (l.Orderly calls) :=
  match calls with
  | [] => .isTrue trivial
  | call :: calls =>
    have := decidableOrderly (l.ask call) calls
    inferInstanceAs (Decidable (call.Fits l ∧ (l.ask call).Orderly calls))

theorem run_append (l : Ledger) (calls more : List Call) :
    l.run (calls ++ more) = (l.run calls).run more := List.foldl_append

theorem orderly_append {l : Ledger} {calls more : List Call} :
    l.Orderly (calls ++ more) ↔ l.Orderly calls ∧ (l.run calls).Orderly more := by
  induction calls generalizing l with
  | nil => exact (Iff.of_eq (true_and _)).symm
  | cons call calls ih =>
    rw [List.cons_append, Orderly, Orderly, ih, and_assoc]
    rfl

/-! ## 2. What calls say of a transaction -/

/-- One of the calls, made to a new ledger one after another, was like this, and so was the ledger that
it met. -/
def Happened (calls : List Call) (like : Ledger → Call → Prop) : Prop :=
  ∃ before call rest, calls = before ++ call :: rest ∧ like (run {} before) call

/-- The transaction was begun. -/
def Began (calls : List Call) (id : Int) : Prop :=
  Happened calls fun l call => call = .begin ∧ ∃ l' snapshot, l.begin? = some (l', id, snapshot)

/-- The transaction committed with that sequence. -/
def CommittedAt (calls : List Call) (id sequence : Int) : Prop :=
  Happened calls fun l call => call = .commit id ∧ (l.commit id).2 = sequence

/-- The transaction aborted when that sequence was the last one drawn. -/
def AbortedAt (calls : List Call) (id sequence : Int) : Prop :=
  Happened calls fun l call => call = .abort id ∧ l.sequence = sequence

/-- The transaction was begun and has not come to an end. -/
def Running (calls : List Call) (id : Int) : Prop :=
  Began calls id ∧ (∀ sequence, ¬ CommittedAt calls id sequence) ∧
    ∀ sequence, ¬ AbortedAt calls id sequence

theorem happened_nil (like : Ledger → Call → Prop) : ¬ Happened [] like := by
  rintro ⟨before, call, rest, heq, _⟩
  cases before <;> cases heq

theorem happened_concat {calls : List Call} {call : Call} {like : Ledger → Call → Prop} :
    Happened (calls ++ [call]) like ↔ Happened calls like ∨ like (run {} calls) call := by
  constructor
  · rintro ⟨before, other, rest, heq, hlike⟩
    rcases List.eq_nil_or_concat rest with rfl | ⟨rest, last, rfl⟩
    · obtain ⟨rfl, hlast⟩ := List.append_inj' heq rfl
      cases hlast
      exact Or.inr hlike
    · rw [List.concat_eq_append, ← List.cons_append, ← List.append_assoc] at heq
      obtain ⟨rfl, _⟩ := List.append_inj' heq rfl
      exact Or.inl ⟨before, other, rest, rfl, hlike⟩
  · rintro (⟨before, other, rest, rfl, hlike⟩ | hlike)
    · exact ⟨before, other, rest ++ [call], by rw [List.append_assoc]; rfl, hlike⟩
    · exact ⟨calls, call, [], rfl, hlike⟩

/-! ## 3. The answers of a ledger -/

section Answers

variable {l : Ledger} {id : Int}

theorem commitSequence?_of_committed {sequence : Int} (pos : 0 < id)
    (h : l.committed[id]? = some sequence) : l.commitSequence? id = some sequence := by
  rw [commitSequence?, noTransaction, if_neg (Int.not_le.mpr pos), h]

theorem commitSequence?_of_forgotten (pos : 0 < id) (committed : l.committed[id]? = none)
    (marked : id ≤ l.prunedMark) (active : l.active[id]? = none) (aborted : l.aborted[id]? = none) :
    l.commitSequence? id = some frozen := by
  rw [commitSequence?, noTransaction, if_neg (Int.not_le.mpr pos), committed]
  dsimp only
  rw [if_neg]
  simp only [Bool.or_eq_true, decide_eq_true_eq, Std.ExtTreeMap.contains_eq_isSome_getElem?, active,
    aborted, Option.isSome_none, Bool.false_eq_true, or_false]
  exact Int.not_lt.mpr marked

theorem commitSequence?_eq_none (committed : l.committed[id]? = none)
    (known : id ≤ 0 ∨ l.prunedMark < id ∨ l.active[id]? ≠ none ∨ l.aborted[id]? ≠ none) :
    l.commitSequence? id = none := by
  rw [commitSequence?, noTransaction, committed]
  dsimp only
  split
  · rfl
  · rename_i hpos
    rw [if_pos]
    simp only [Bool.or_eq_true, decide_eq_true_eq, Std.ExtTreeMap.contains_eq_isSome_getElem?,
      Option.isSome_iff_ne_none, or_assoc]
    exact known.resolve_left hpos

end Answers

/-! ## 4. What is still known -/

/-- The first ledger was asked the same as the second, which has forgotten nothing. -/
structure Recalls (l whole : Ledger) : Prop where
  ok : l.Ok
  wholeOk : whole.Ok
  unmarked : whole.prunedMark = 0
  lastId : l.lastId = whole.lastId
  sequence : l.sequence = whole.sequence
  active : l.active = whole.active
  accepting : l.accepting = whole.accepting
  committed : ∀ {id c : Int}, whole.committed[id]? = some c → l.committed[id]? = some c ∨
    l.committed[id]? = none ∧ id ≤ l.prunedMark ∧ c ≤ l.horizon
  uncommitted : ∀ {id : Int}, whole.committed[id]? = none → l.committed[id]? = none
  aborted : ∀ {id a : Int}, whole.aborted[id]? = some a → l.aborted[id]? = some a ∨
    l.aborted[id]? = none ∧ a < l.horizon
  unaborted : ∀ {id : Int}, whole.aborted[id]? = none → l.aborted[id]? = none

theorem recalls_new : Recalls {} {} where
  ok := ok_new
  wholeOk := ok_new
  unmarked := rfl
  lastId := rfl
  sequence := rfl
  active := rfl
  accepting := rfl
  committed h := Or.inl h
  uncommitted h := h
  aborted h := Or.inl h
  unaborted h := h

namespace Recalls

variable {l whole : Ledger} (recalls : Recalls l whole)
include recalls

/-- What is forgotten stays below the horizon while the ledger goes on without another end. -/
theorem goes_on {l' whole' : Ledger} (ok : l'.Ok) (wholeOk : whole'.Ok)
    (horizon : l.horizon ≤ l'.horizon) (lastId : l'.lastId = whole'.lastId)
    (sequence : l'.sequence = whole'.sequence) (active : l'.active = whole'.active)
    (accepting : l'.accepting = whole'.accepting)
    (same : l'.committed = l.committed ∧ l'.aborted = l.aborted ∧ l'.prunedMark = l.prunedMark)
    (same' : whole'.committed = whole.committed ∧ whole'.aborted = whole.aborted ∧
      whole'.prunedMark = whole.prunedMark) : Recalls l' whole' := by
  obtain ⟨hcommitted, haborted, hmark⟩ := same
  obtain ⟨hcommitted', haborted', hmark'⟩ := same'
  refine ⟨ok, wholeOk, hmark'.trans recalls.unmarked, lastId, sequence, active, accepting, ?_, ?_, ?_,
    ?_⟩
  · intro id c h
    rw [hcommitted'] at h
    rw [hcommitted, hmark]
    rcases recalls.committed h with h | ⟨h, hle, hc⟩
    · exact Or.inl h
    · exact Or.inr ⟨h, hle, Int.le_trans hc horizon⟩
  · intro id h
    rw [hcommitted'] at h
    rw [hcommitted]
    exact recalls.uncommitted h
  · intro id a h
    rw [haborted'] at h
    rw [haborted]
    rcases recalls.aborted h with h | ⟨h, ha⟩
    · exact Or.inl h
    · exact Or.inr ⟨h, Int.lt_of_lt_of_le ha horizon⟩
  · intro id h
    rw [haborted'] at h
    rw [haborted]
    exact recalls.unaborted h

theorem begin : Recalls (l.ask .begin) (whole.ask .begin) := by
  cases hbegin : l.begin? with
  | none =>
    have hwhole : whole.begin? = none := by
      rw [begin?] at hbegin ⊢
      rw [← recalls.accepting]
      split at hbegin
      · cases hbegin
      · rename_i h
        rw [if_neg h]
    rw [ask, ask, hbegin, hwhole]
    exact recalls
  | some begun =>
    obtain ⟨l', id, snapshot⟩ := begun
    obtain ⟨haccepting, hid, hsnapshot, hl'⟩ := begin?_eq_some.mp hbegin
    have hwhole : whole.begin? = some ({ whole with
        lastId := id, sequence := snapshot, active := whole.active.insert id snapshot },
        id, snapshot) := by
      refine begin?_eq_some.mpr ⟨recalls.accepting ▸ haccepting, ?_, ?_, rfl⟩
      · rw [hid, recalls.lastId]
      · rw [hsnapshot, recalls.sequence]
    rw [ask, ask, hbegin, hwhole]
    subst hl'
    exact recalls.goes_on (ok_begin recalls.ok hbegin) (ok_begin recalls.wholeOk hwhole)
      (grows_begin recalls.ok hbegin).horizon_le rfl rfl
      (congrArg (·.insert id snapshot) recalls.active) recalls.accepting ⟨rfl, rfl, rfl⟩
      ⟨rfl, rfl, rfl⟩

theorem refresh (id : Int) : Recalls (l.ask (.refresh id)) (whole.ask (.refresh id)) := by
  refine recalls.goes_on (ok_refresh recalls.ok id) (ok_refresh recalls.wholeOk id)
    (grows_refresh id).horizon_le recalls.lastId recalls.sequence ?_ recalls.accepting ⟨rfl, rfl, rfl⟩
    ⟨rfl, rfl, rfl⟩
  show (l.active.modify id fun _ => l.sequence) = whole.active.modify id fun _ => whole.sequence
  rw [recalls.active, recalls.sequence]

section Ending

variable {id snapshot : Int} (running : l.active[id]? = some snapshot)
include running

theorem commit : Recalls (l.ask (.commit id)) (whole.ask (.commit id)) := by
  have running' : whole.active[id]? = some snapshot := by rw [← recalls.active]; exact running
  have hhorizon := (grows_commit recalls.ok running).horizon_le
  refine ⟨ok_commit recalls.ok running, ok_commit recalls.wholeOk running', recalls.unmarked,
    recalls.lastId, congrArg (· + 1) recalls.sequence, congrArg (·.erase id) recalls.active,
    recalls.accepting, ?_, ?_, ?_, recalls.unaborted⟩
  · intro other c h
    rw [ask, Ledger.commit, get_insert] at h
    rw [ask, Ledger.commit, get_insert]
    split at h
    · rename_i heq
      rw [if_pos heq, recalls.sequence]
      exact Or.inl h
    · rename_i hne
      rw [if_neg hne]
      rcases recalls.committed h with h | ⟨h, hle, hc⟩
      · exact Or.inl h
      · exact Or.inr ⟨h, hle, Int.le_trans hc hhorizon⟩
  · intro other h
    rw [ask, Ledger.commit, get_insert] at h
    rw [ask, Ledger.commit, get_insert]
    split at h
    · cases h
    · rename_i hne
      rw [if_neg hne]
      exact recalls.uncommitted h
  · intro other a h
    rcases recalls.aborted h with h | ⟨h, ha⟩
    · exact Or.inl h
    · exact Or.inr ⟨h, Int.lt_of_lt_of_le ha hhorizon⟩

theorem abort : Recalls (l.ask (.abort id)) (whole.ask (.abort id)) := by
  have running' : whole.active[id]? = some snapshot := by rw [← recalls.active]; exact running
  have hhorizon := (grows_abort recalls.ok running).horizon_le
  refine ⟨ok_abort recalls.ok running, ok_abort recalls.wholeOk running', recalls.unmarked,
    recalls.lastId, recalls.sequence, congrArg (·.erase id) recalls.active, recalls.accepting, ?_,
    recalls.uncommitted, ?_, ?_⟩
  · intro other c h
    rcases recalls.committed h with h | ⟨h, hle, hc⟩
    · exact Or.inl h
    · exact Or.inr ⟨h, hle, Int.le_trans hc hhorizon⟩
  · intro other a h
    rw [ask, Ledger.abort, get_insert] at h
    rw [ask, Ledger.abort, get_insert]
    split at h
    · rename_i heq
      rw [if_pos heq, recalls.sequence]
      exact Or.inl h
    · rename_i hne
      rw [if_neg hne]
      rcases recalls.aborted h with h | ⟨h, ha⟩
      · exact Or.inl h
      · exact Or.inr ⟨h, Int.lt_of_lt_of_le ha hhorizon⟩
  · intro other h
    rw [ask, Ledger.abort, get_insert] at h
    rw [ask, Ledger.abort, get_insert]
    split at h
    · cases h
    · rename_i hne
      rw [if_neg hne]
      exact recalls.unaborted h

end Ending

/-- Forgetting keeps to what lies at or below the horizon. -/
theorem prune : Recalls (l.ask .prune) whole := by
  have hmark := prunedMark_prune_le_iff.mp (Int.le_refl l.prune.1.prunedMark)
  refine ⟨ok_prune recalls.ok, recalls.wholeOk, recalls.unmarked, recalls.lastId, recalls.sequence,
    recalls.active, recalls.accepting, ?_, ?_, ?_, ?_⟩
  · intro id c h
    rw [ask, committed_prune, horizon_prune]
    rcases recalls.committed h with h | ⟨h, hle, hc⟩
    · rw [h]
      by_cases hold : c ≤ l.horizon
      · exact Or.inr ⟨by simp [hold], hmark.2 h hold, hold⟩
      · exact Or.inl (by simpa using hold)
    · rw [h]
      exact Or.inr ⟨rfl, Int.le_trans hle hmark.1, hc⟩
  · intro id h
    rw [ask, committed_prune, recalls.uncommitted h]
    rfl
  · intro id a h
    rw [ask, aborted_prune, horizon_prune]
    rcases recalls.aborted h with h | ⟨h, ha⟩
    · rw [h]
      by_cases hold : a < l.horizon
      · exact Or.inr ⟨by simp [hold], hold⟩
      · exact Or.inl (by simpa using hold)
    · rw [h]
      exact Or.inr ⟨rfl, ha⟩
  · intro id h
    rw [ask, aborted_prune, recalls.unaborted h]
    rfl

end Recalls

/-- The calls without those that make a ledger forget. -/
def unpruned (calls : List Call) : List Call := calls.filter fun call => decide (call ≠ .prune)

theorem unpruned_concat (calls : List Call) (call : Call) : unpruned (calls ++ [call]) =
    if call = .prune then unpruned calls else unpruned calls ++ [call] := by
  rw [unpruned, List.filter_append]
  by_cases h : call = .prune
  · simp [h, unpruned]
  · simp [h, unpruned]

theorem run_concat (l : Ledger) (calls : List Call) (call : Call) :
    l.run (calls ++ [call]) = (l.run calls).ask call := run_append l calls [call]

/-- The calls say what is on record with the ledger that forgets nothing. -/
structure Records (calls : List Call) (whole : Ledger) : Prop where
  began : ∀ {id : Int}, Began calls id ↔ 0 < id ∧ id ≤ whole.lastId
  committed : ∀ {id c : Int}, CommittedAt calls id c ↔ whole.committed[id]? = some c
  aborted : ∀ {id a : Int}, AbortedAt calls id a ↔ whole.aborted[id]? = some a
  known : ∀ {id : Int}, 0 < id → id ≤ whole.lastId → whole.active[id]? ≠ none ∨
    whole.committed[id]? ≠ none ∨ whole.aborted[id]? ≠ none

theorem records_new : Records [] {} where
  began := ⟨fun h => absurd h (happened_nil _), fun h => absurd h.2 (Int.not_le.mpr h.1)⟩
  committed := ⟨fun h => absurd h (happened_nil _), fun h => by simp at h⟩
  aborted := ⟨fun h => absurd h (happened_nil _), fun h => by simp at h⟩
  known hpos hle := absurd hle (Int.not_le.mpr hpos)

/-- Nothing is put on record but by the call that does so. -/
theorem Records.same {calls : List Call} {whole whole' : Ledger} {call : Call}
    (records : Records calls whole) (began : ∀ {id : Int}, Began (calls ++ [call]) id ↔
      0 < id ∧ id ≤ whole'.lastId)
    (hcommit : ∀ id, call ≠ .commit id) (habort : ∀ id, call ≠ .abort id)
    (same : whole'.committed = whole.committed ∧ whole'.aborted = whole.aborted)
    (known : ∀ {id : Int}, 0 < id → id ≤ whole'.lastId → id ≤ whole.lastId ∨
      whole'.active[id]? ≠ none)
    (active : ∀ {id : Int}, whole.active[id]? ≠ none → whole'.active[id]? ≠ none) :
    Records (calls ++ [call]) whole' where
  began := began
  committed {id c} := by
    rw [CommittedAt, happened_concat, same.1, ← records.committed]
    exact or_iff_left fun h => hcommit id h.1
  aborted {id a} := by
    rw [AbortedAt, happened_concat, same.2, ← records.aborted]
    exact or_iff_left fun h => habort id h.1
  known {id} hpos hle := by
    rw [same.1, same.2]
    rcases known hpos hle with hle | hactive
    · exact (records.known hpos hle).imp_left active
    · exact Or.inl hactive

/-- Who was begun, a call later that begins nobody. -/
theorem began_concat {calls : List Call} {call : Call} (h : call ≠ .begin) (id : Int) :
    Began (calls ++ [call]) id ↔ Began calls id := by
  rw [Began, happened_concat]
  exact or_iff_left fun hbegin => h hbegin.1

section Asked

variable {calls : List Call} {whole : Ledger} (records : Records calls whole)
include records

theorem Records.refresh (id : Int) : Records (calls ++ [.refresh id]) (whole.ask (.refresh id)) := by
  have hbegan : Call.refresh id ≠ .begin := by simp
  refine records.same ((began_concat hbegan _).trans records.began) (by simp) (by simp)
    ⟨rfl, rfl⟩ (fun _ hle => Or.inl hle) fun {other} h => ?_
  rw [Ledger.ask, active_refresh]
  split
  · exact fun hnone => h (Option.map_eq_none_iff.mp hnone)
  · exact h

variable (recalls : Recalls (run {} calls) whole)
include recalls

/-- A ledger that accepts nobody puts nobody on record. -/
theorem Records.begin_refused (closed : whole.begin? = none) :
    Records (calls ++ [.begin]) whole := by
  have hclosed : whole.accepting = false := by
    rw [begin?] at closed
    split at closed
    · cases closed
    · rename_i h
      exact Bool.not_eq_true _ ▸ h
  refine records.same ?_ (by simp) (by simp) ⟨rfl, rfl⟩ (fun _ hle => Or.inl hle) fun h => h
  intro id
  rw [Began, happened_concat, ← records.began]
  refine or_iff_left ?_
  rintro ⟨_, _, _, h⟩
  rw [begin?_eq_some, recalls.accepting, hclosed] at h
  cases h.1

/-- Who begins gets the next id and is active from then on. -/
theorem Records.begin_accepted {whole' : Ledger} {id snapshot : Int}
    (begun : whole.begin? = some (whole', id, snapshot)) : Records (calls ++ [.begin]) whole' := by
  have hnonneg := Int.le_trans recalls.wholeOk.mark_nonneg recalls.wholeOk.mark_le
  obtain ⟨hopen, hid, _, rfl⟩ := begin?_eq_some.mp begun
  refine records.same ?_ (by simp) (by simp) ⟨rfl, rfl⟩ ?_ ?_
  · intro other
    have hbegins : (∃ l' snapshot, (run {} calls).begin? = some (l', other, snapshot)) ↔
        other = id := by
      simp only [begin?_eq_some, recalls.accepting, hopen, true_and, recalls.lastId, ← hid]
      constructor
      · rintro ⟨_, _, h, _⟩
        exact h
      · intro h
        exact ⟨_, _, h, rfl, rfl⟩
    show Happened _ _ ↔ 0 < other ∧ other ≤ id
    simp only [happened_concat, true_and, hbegins]
    rw [← Began, records.began]
    omega
  · intro other _ hle
    show other ≤ whole.lastId ∨ (whole.active.insert id snapshot)[other]? ≠ none
    rw [get_insert]
    by_cases heq : other = id
    · rw [if_pos heq]
      exact Or.inr (Option.some_ne_none _)
    · have hle : other ≤ id := hle
      exact Or.inl (by omega)
  · intro other h
    show (whole.active.insert id snapshot)[other]? ≠ none
    rw [get_insert]
    split
    · exact Option.some_ne_none _
    · exact h

theorem Records.commit {id snapshot : Int} (running : whole.active[id]? = some snapshot) :
    Records (calls ++ [.commit id]) (whole.ask (.commit id)) := by
  have hbegan : Call.commit id ≠ .begin := by simp
  refine ⟨(began_concat hbegan _).trans records.began, fun {other c} => ?_, fun {other a} => ?_,
    fun {other} hpos hle => ?_⟩
  · rw [CommittedAt, happened_concat, ← CommittedAt, records.committed]
    show _ ↔ (whole.committed.insert id (whole.sequence + 1))[other]? = some c
    rw [get_insert]
    by_cases heq : other = id
    · subst heq
      rw [if_pos rfl, (recalls.wholeOk.running running).1, Ledger.commit, recalls.sequence]
      simp
    · rw [if_neg heq]
      refine or_iff_left fun h => heq ?_
      cases h.1
      rfl
  · rw [AbortedAt, happened_concat]
    exact (or_iff_left fun h => by cases h.1).trans records.aborted
  · show (whole.active.erase id)[other]? ≠ none ∨
      (whole.committed.insert id (whole.sequence + 1))[other]? ≠ none ∨ whole.aborted[other]? ≠ none
    rw [get_erase, get_insert]
    by_cases heq : other = id
    · rw [if_pos heq, if_pos heq]
      exact Or.inr (Or.inl (Option.some_ne_none _))
    · rw [if_neg heq, if_neg heq]
      exact records.known hpos hle

theorem Records.abort {id snapshot : Int} (running : whole.active[id]? = some snapshot) :
    Records (calls ++ [.abort id]) (whole.ask (.abort id)) := by
  have hbegan : Call.abort id ≠ .begin := by simp
  refine ⟨(began_concat hbegan _).trans records.began, fun {other c} => ?_, fun {other a} => ?_,
    fun {other} hpos hle => ?_⟩
  · rw [CommittedAt, happened_concat]
    exact (or_iff_left fun h => by cases h.1).trans records.committed
  · rw [AbortedAt, happened_concat, ← AbortedAt, records.aborted]
    show _ ↔ (whole.aborted.insert id whole.sequence)[other]? = some a
    rw [get_insert]
    by_cases heq : other = id
    · subst heq
      rw [if_pos rfl, (recalls.wholeOk.running running).2, recalls.sequence]
      simp
    · rw [if_neg heq]
      refine or_iff_left fun h => heq ?_
      cases h.1
      rfl
  · show (whole.active.erase id)[other]? ≠ none ∨ whole.committed[other]? ≠ none ∨
      (whole.aborted.insert id whole.sequence)[other]? ≠ none
    rw [get_erase, get_insert]
    by_cases heq : other = id
    · rw [if_pos heq, if_pos heq]
      exact Or.inr (Or.inr (Option.some_ne_none _))
    · rw [if_neg heq, if_neg heq]
      exact records.known hpos hle

/-- Each call goes on record with a ledger that forgets nothing. -/
theorem Records.ask {call : Call} (fits : call.Fits (run {} calls)) (keeps : call ≠ .prune) :
    Records (calls ++ [call]) (whole.ask call) := by
  have hrunning : ∀ {id : Int}, (run {} calls).isActive id = true →
      ∃ snapshot, whole.active[id]? = some snapshot := by
    intro id h
    rw [← recalls.active]
    exact isActive_iff.mp h
  cases call with
  | begin =>
    cases hbegin : whole.begin? with
    | none =>
      rw [Ledger.ask, hbegin]
      exact records.begin_refused recalls hbegin
    | some begun =>
      rw [Ledger.ask, hbegin]
      exact records.begin_accepted recalls hbegin
  | refresh id => exact records.refresh id
  | commit id =>
    obtain ⟨_, running⟩ := hrunning fits
    exact records.commit recalls running
  | abort id =>
    obtain ⟨_, running⟩ := hrunning fits
    exact records.abort recalls running
  | prune => exact absurd rfl keeps

end Asked

/-! ## 5. Runs -/

section Runs

variable {calls : List Call}

/-- A ledger that forgets, and the one that does not, after the same calls. -/
theorem recalls_run (orderly : Orderly {} calls) :
    Recalls (run {} calls) (run {} (unpruned calls)) ∧
      Records calls (run {} (unpruned calls)) := by
  -- By the last call: to forget is asked of one ledger only, anything else of both.
  induction calls using List.reverseRecOn with
  | nil => exact ⟨recalls_new, records_new⟩
  | append_singleton calls call ih =>
    obtain ⟨hcalls, hfits, _⟩ := orderly_append.mp orderly
    obtain ⟨recalls, records⟩ := ih hcalls
    rw [unpruned_concat, run_concat]
    by_cases hprune : call = .prune
    · rw [if_pos hprune]
      subst hprune
      exact ⟨recalls.prune, records.same ((began_concat (by simp) _).trans records.began) (by simp)
        (by simp) ⟨rfl, rfl⟩ (fun _ hle => Or.inl hle) fun h => h⟩
    · rw [if_neg hprune, run_concat]
      refine ⟨?_, records.ask recalls hfits hprune⟩
      cases call with
      | begin => exact recalls.begin
      | refresh id => exact recalls.refresh id
      | commit id =>
        obtain ⟨_, running⟩ := isActive_iff.mp hfits
        exact recalls.commit running
      | abort id =>
        obtain ⟨_, running⟩ := isActive_iff.mp hfits
        exact recalls.abort running
      | prune => exact absurd rfl hprune

/-- A call that fits keeps a ledger in order, and it grows. -/
theorem ask_spec {l : Ledger} (ok : l.Ok) {call : Call} (fits : call.Fits l) :
    (l.ask call).Ok ∧ Grows l (l.ask call) := by
  cases call with
  | begin =>
    rw [ask]
    split
    · rename_i h
      exact ⟨ok_begin ok h, grows_begin ok h⟩
    · exact ⟨ok, .refl l⟩
  | refresh id => exact ⟨ok_refresh ok id, grows_refresh id⟩
  | commit id =>
    obtain ⟨_, running⟩ := isActive_iff.mp fits
    exact ⟨ok_commit ok running, grows_commit ok running⟩
  | abort id =>
    obtain ⟨_, running⟩ := isActive_iff.mp fits
    exact ⟨ok_abort ok running, grows_abort ok running⟩
  | prune => exact ⟨ok_prune ok, grows_prune ok⟩

theorem run_spec {l : Ledger} (ok : l.Ok) (orderly : l.Orderly calls) :
    (l.run calls).Ok ∧ Grows l (l.run calls) := by
  induction calls generalizing l with
  | nil => exact ⟨ok, .refl l⟩
  | cons call calls ih =>
    obtain ⟨hok, hgrows⟩ := ask_spec ok orderly.1
    obtain ⟨hok', hgrows'⟩ := ih hok orderly.2
    exact ⟨hok', hgrows.trans hgrows'⟩

end Runs

namespace Recalls

variable {l whole : Ledger} (recalls : Recalls l whole) {id : Int}
include recalls

/-- A commit is on record, or forgotten and seen by everybody. -/
theorem commitSequence? {sequence : Int} (h : whole.committed[id]? = some sequence) :
    l.commitSequence? id = some sequence ∨
      l.commitSequence? id = some frozen ∧ sequence ≤ l.horizon := by
  have hpos := (recalls.wholeOk.committed h).1
  rcases recalls.committed h with hc | ⟨hc, hmark, hle⟩
  · exact Or.inl (commitSequence?_of_committed hpos hc)
  · have hactive : l.active[id]? = none := by
      rw [recalls.active]
      by_contra hne
      obtain ⟨snapshot, running⟩ := Option.ne_none_iff_exists'.mp hne
      rw [(recalls.wholeOk.running running).1] at h
      cases h
    exact Or.inr ⟨commitSequence?_of_forgotten hpos hc hmark hactive
      (recalls.unaborted (recalls.wholeOk.ended h)), hle⟩

/-- Who has neither committed nor aborted is not taken for one who has committed. -/
theorem commitSequence?_of_open (hcommitted : whole.committed[id]? = none)
    (hopen : id ≤ 0 ∨ whole.lastId < id ∨ whole.active[id]? ≠ none) :
    l.commitSequence? id = none := by
  refine commitSequence?_eq_none (recalls.uncommitted hcommitted) ?_
  rw [recalls.active]
  rcases hopen with hid | hid | hactive
  · exact Or.inl hid
  · rw [← recalls.lastId] at hid
    exact Or.inr (Or.inl (Int.lt_of_le_of_lt recalls.ok.mark_le hid))
  · exact Or.inr (Or.inr (Or.inl hactive))

/-- Who has aborted is not taken for one who has committed as long as a snapshot is as old as the
abort. -/
theorem commitSequence?_of_aborted {sequence viewer snapshot : Int}
    (h : whole.aborted[id]? = some sequence) (hviewer : l.active[viewer]? = some snapshot)
    (old : snapshot ≤ sequence) : l.commitSequence? id = none := by
  have hcommitted : whole.committed[id]? = none := by
    by_contra hne
    obtain ⟨_, hcommitted⟩ := Option.ne_none_iff_exists'.mp hne
    rw [recalls.wholeOk.ended hcommitted] at h
    cases h
  have haborted : l.aborted[id]? = some sequence := by
    refine (recalls.aborted h).resolve_right fun hforgotten => ?_
    have hhorizon := horizon_le_snapshot hviewer
    omega
  refine commitSequence?_eq_none (recalls.uncommitted hcommitted) (Or.inr (Or.inr (Or.inr ?_)))
  rw [haborted]
  exact Option.some_ne_none _

/-- Who has committed has done so by a snapshot that is held, forgotten or not. -/
theorem committedBy_of_committed {sequence viewer snapshot : Int}
    (h : whole.committed[id]? = some sequence) (hviewer : l.active[viewer]? = some snapshot) :
    l.committedBy id snapshot = whole.committedBy id snapshot := by
  rw [committedBy, committedBy,
    commitSequence?_of_committed (recalls.wholeOk.committed h).1 h]
  rcases recalls.commitSequence? h with hsequence | ⟨hfrozen, hle⟩
  · rw [hsequence]
  · have hhorizon := horizon_le_snapshot hviewer
    have hnonneg := horizon_nonneg recalls.ok
    rw [hfrozen, Option.any_some, Option.any_some, frozen, decide_eq_true (by omega),
      decide_eq_true (by omega)]

/-- Who has neither committed nor aborted has not committed by any snapshot. -/
theorem committedBy_of_open (hcommitted : whole.committed[id]? = none)
    (hopen : id ≤ 0 ∨ whole.lastId < id ∨ whole.active[id]? ≠ none) (snapshot : Int) :
    l.committedBy id snapshot = whole.committedBy id snapshot := by
  rw [committedBy, committedBy, recalls.commitSequence?_of_open hcommitted hopen,
    commitSequence?_eq_none hcommitted]
  rw [recalls.unmarked]
  by_cases hpos : id ≤ 0
  · exact Or.inl hpos
  · exact Or.inr (Or.inl (Int.not_le.mp hpos))

end Recalls

namespace Records

variable {calls : List Call} {whole : Ledger} (records : Records calls whole) {id : Int}
include records

theorem uncommitted (h : ∀ sequence, ¬ CommittedAt calls id sequence) :
    whole.committed[id]? = none := by
  by_contra hne
  obtain ⟨sequence, hsome⟩ := Option.ne_none_iff_exists'.mp hne
  exact h sequence (records.committed.mpr hsome)

theorem unaborted (h : ∀ sequence, ¬ AbortedAt calls id sequence) :
    whole.aborted[id]? = none := by
  by_contra hne
  obtain ⟨sequence, hsome⟩ := Option.ne_none_iff_exists'.mp hne
  exact h sequence (records.aborted.mpr hsome)

/-- Who has not come to an end is running, unless nobody was ever begun with that number. -/
theorem unfinished (hcommitted : whole.committed[id]? = none) (haborted : whole.aborted[id]? = none) :
    id ≤ 0 ∨ whole.lastId < id ∨ whole.active[id]? ≠ none := by
  by_cases hid : 0 < id ∧ id ≤ whole.lastId
  · exact Or.inr (Or.inr ((records.known hid.1 hid.2).resolve_right
      (not_or.mpr ⟨not_not.mpr hcommitted, not_not.mpr haborted⟩)))
  · omega

/-- Nobody has committed or aborted who was not begun. -/
theorem untouched (wholeOk : whole.Ok) (h : ¬ Began calls id) :
    whole.committed[id]? = none ∧ (id ≤ 0 ∨ whole.lastId < id ∨ whole.active[id]? ≠ none) := by
  rw [records.began] at h
  refine ⟨?_, by omega⟩
  by_contra hne
  obtain ⟨_, hsome⟩ := Option.ne_none_iff_exists'.mp hne
  exact h ⟨(wholeOk.committed hsome).1, (wholeOk.committed hsome).2.1⟩

end Records

/-- Ledgers that are asked the same, one of which forgets. -/
theorem run_answers {calls : List Call} (orderly : Orderly {} calls) :
    (∀ id, ¬ Began calls id ∨ Running calls id → (run {} calls).commitSequence? id = none) ∧
    (∀ id sequence, CommittedAt calls id sequence →
      (run {} calls).commitSequence? id = some sequence ∨
      (run {} calls).commitSequence? id = some frozen ∧
        ∀ later, (run {} calls).Orderly later → ∀ viewer snapshot : Int,
          (run {} (calls ++ later)).active[viewer]? = some snapshot → sequence ≤ snapshot) ∧
    (∀ id sequence, AbortedAt calls id sequence →
      (∃ viewer snapshot : Int,
        (run {} calls).active[viewer]? = some snapshot ∧ snapshot ≤ sequence) →
      (run {} calls).commitSequence? id = none) ∧
    (∀ viewer snapshot id : Int, (run {} calls).active[viewer]? = some snapshot →
      (∀ sequence, ¬ AbortedAt calls id sequence) →
      (run {} (unpruned calls)).active[viewer]? = some snapshot ∧
      (run {} calls).isVisible id viewer snapshot =
        (run {} (unpruned calls)).isVisible id viewer snapshot) := by
  obtain ⟨recalls, records⟩ := recalls_run orderly
  refine ⟨?unfinished, ?committed, ?aborted, ?visible⟩
  case unfinished =>
    rintro id (hnew | ⟨_, hcommitted, haborted⟩)
    · obtain ⟨hnone, hopen⟩ := records.untouched recalls.wholeOk hnew
      exact recalls.commitSequence?_of_open hnone hopen
    · have hnone := records.uncommitted hcommitted
      exact recalls.commitSequence?_of_open hnone
        (records.unfinished hnone (records.unaborted haborted))
  case committed =>
    intro id sequence hcommitted
    refine (recalls.commitSequence? (records.committed.mp hcommitted)).imp_right ?_
    rintro ⟨hfrozen, hle⟩
    refine ⟨hfrozen, fun later hlater viewer snapshot hviewer => ?_⟩
    -- A snapshot held then lies at or above the horizon of now.
    have hgrows := (run_spec recalls.ok hlater).2
    rw [run_append] at hviewer
    exact Int.le_trans hle (Int.le_trans hgrows.horizon_le (horizon_le_snapshot hviewer))
  case aborted =>
    rintro id sequence haborted ⟨viewer, snapshot, hviewer, hle⟩
    exact recalls.commitSequence?_of_aborted (records.aborted.mp haborted) hviewer hle
  case visible =>
    intro viewer snapshot id hviewer haborted
    refine ⟨by rw [← recalls.active]; exact hviewer, ?_⟩
    rw [isVisible, isVisible]
    congr 1
    cases hcommitted : (run {} (unpruned calls)).committed[id]? with
    | some sequence => exact recalls.committedBy_of_committed hcommitted hviewer
    | none =>
      exact recalls.committedBy_of_open hcommitted
        (records.unfinished hcommitted (records.unaborted haborted)) snapshot

/-- A writer commits, another aborts, and a reader takes a fresh snapshot; then the commit and the
abort are forgotten. -/
def forgetting : List Call :=
  [.begin, .begin, .begin, .commit 2, .abort 3, .begin, .refresh 1, .prune, .commit 1, .prune]

/-- The commit that is forgotten lies below every snapshot to come, and readers see as much of it as
if it were on record. -/
theorem forgetting_answers :
    (run {} forgetting).commitSequence? 2 = some frozen ∧
    (run {} (unpruned forgetting)).commitSequence? 2 = some 4 ∧
    (∀ later, (run {} forgetting).Orderly later → ∀ viewer snapshot : Int,
      (run {} (forgetting ++ later)).active[viewer]? = some snapshot → 4 ≤ snapshot) ∧
    (run {} forgetting).isVisible 2 4 5 = (run {} (unpruned forgetting)).isVisible 2 4 5 := by
  have horderly : Orderly {} forgetting := by decide +kernel
  obtain ⟨_, hcommitted, _, hvisible⟩ := run_answers horderly
  have hfrozen : (run {} forgetting).commitSequence? 2 = some frozen := by decide +kernel
  have hcommit : CommittedAt forgetting 2 4 :=
    ⟨[.begin, .begin, .begin], .commit 2, _, rfl, rfl, by decide +kernel⟩
  have habort : ∀ sequence, ¬ AbortedAt forgetting 2 sequence := by
    rintro sequence ⟨before, call, rest, heq, rfl, _⟩
    have hmem : Call.abort 2 ∈ forgetting := by simp [heq]
    exact absurd hmem (by decide)
  refine ⟨hfrozen, by decide +kernel, ?_, (hvisible 4 5 2 (by decide +kernel) habort).2⟩
  rcases hcommitted 2 4 hcommit with h | ⟨_, h⟩
  · rw [hfrozen] at h
    cases h
  · exact h

end Ledger
end SnapshotStore
