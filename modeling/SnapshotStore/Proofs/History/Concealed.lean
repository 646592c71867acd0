import Mathlib
import SnapshotStore.Proofs.History.Chains
import SnapshotStore.Proofs.History.Reads

/-!
# What nobody else sees

What a transaction has written is seen by others from the moment when it counts as committed, and the
ledger goes one way: whoever counts as committed goes on doing so (`Onward.grows`). Read backwards, a
transaction that still runs has never counted as committed, so until now nobody else has seen a version
or a mark of it; and of one that aborts nothing is left to be seen, although it may count as committed
once its abort is forgotten. `Conceals` says this of one moment, and it is settled for the two kinds of
moments there are: those at or before one at which the transaction runs, and those after its abort.
-/

namespace SnapshotStore

/-! ## 1. The ledger goes one way -/

namespace Store

variable {store store' : Store} {work work' : Work} {event : Event} {events : List Event}

/-- Only a commit puts a commit on record. -/
theorem Move.committed_of (move : Move store work event store' work') {id c : Int}
    (h : store'.ledger.committed[id]? = some c) :
    event = .committed id ∨ store.ledger.committed[id]? = some c := by
  cases move with
  | began begin =>
    obtain ⟨_, _, _, rfl⟩ := Ledger.begin?_eq_some.mp begin
    exact Or.inr h
  | @committed other txn running sound =>
    rw [(publish_spec _ (store.ledger.sequence + 1) txn.log).1] at h
    have hinsert : (store.ledger.committed.insert other (store.ledger.sequence + 1))[id]? =
      some c := h
    rw [Maps.get_insert] at hinsert
    split at hinsert
    · rename_i heq
      rw [heq]
      exact Or.inl rfl
    · exact Or.inr hinsert
  | @undone other txn running whole =>
    rw [(store.undo_spec other (txn.undoing whole)).1] at h
    exact Or.inr h
  | reclaimed here =>
    have hprune : store.ledger.prune.1.committed[id]? = some c := h
    rw [Ledger.committed_prune, Option.filter_eq_some_iff] at hprune
    exact Or.inr hprune.1
  | statement | refreshed | doomed | refused | wrote | marked | aborted | built | admitted | added =>
    exact Or.inr h

theorem Moves.committed_of (moves : Moves store work events store' work') {id c : Int}
    (h : store'.ledger.committed[id]? = some c) :
    Event.committed id ∈ events ∨ store.ledger.committed[id]? = some c := by
  induction moves with
  | refl => exact Or.inr h
  | step move _ ih =>
    rcases ih h with hin | h
    · exact Or.inl (List.mem_cons_of_mem _ hin)
    · rcases move.committed_of h with rfl | h
      · exact Or.inl List.mem_cons_self
      · exact Or.inr h

end Store

/-! ## 2. What a service becomes -/

namespace Service

variable {history history' : List Event} {service service' : Service} {id : Int}

/-- What a service with its history can become: it is given tables and asked for things. -/
inductive Onward (history : List Event) (service : Service) : List Event → Service → Prop
  | refl : Onward history service history service
  | added {history' : List Event} {service' : Service}
    (before : Onward history service history' service') (name : String) (schema : Schema)
    (config : Config) : Onward history service history' (service'.withTable name schema config)
  | asked {history' : List Event} {service' : Service}
    (before : Onward history service history' service') (request : Request) :
    Onward history service (history' ++ service'.happening request) (service'.handle request).1

namespace Onward

/-- What can be goes on to what can be. -/
theorem reached (onward : Onward history service history' service')
    (reached : Reached history service) : Reached history' service' := by
  induction onward with
  | refl => exact reached
  | added _ name schema config ih => exact ih.added name schema config
  | asked _ request ih => exact ih.asked request

/-- What can be is what the empty service can become. -/
theorem iff_reached : Onward [] {} history service ↔ Reached history service := by
  refine ⟨fun onward => onward.reached .start, fun reached => ?_⟩
  induction reached with
  | start => exact .refl
  | added _ name schema config ih => exact ih.added name schema config
  | asked _ request ih => exact ih.asked request

/-- A run leads onward. -/
theorem run (onward : Onward history service history' service') (requests : List Request) :
    Onward history service (history' ++ service'.happenings requests)
      (service'.run requests).1 := by
  induction requests generalizing history' service' with
  | nil =>
    rw [happenings, List.append_nil]
    exact onward
  | cons request requests ih =>
    rw [happenings, ← List.append_assoc]
    exact ih (onward.asked request)

/-- The ledger goes one way. -/
theorem grows (onward : Onward history service history' service')
    (reached : Reached history service) :
    Ledger.Grows service.store.ledger service'.store.ledger := by
  induction onward with
  | refl => exact .refl _
  | added _ _ _ _ ih => exact ih
  | asked before request ih =>
    obtain ⟨_, ok⟩ := (before.reached reached).ok
    obtain ⟨_, _, answered⟩ := handle_moves ok request
    exact ih.trans (answered.moves.grows ok.store)

end Onward

/-- A commit that is on record has happened. -/
theorem Reached.committed_of (reached : Reached history service) {c : Int}
    (h : service.store.ledger.committed[id]? = some c) : Event.committed id ∈ history := by
  induction reached with
  | start =>
    have hnone : (∅ : Std.ExtTreeMap Int Int)[id]? = some c := h
    simp at hnone
  | added _ _ _ _ ih => exact ih h
  | @asked history service before request ih =>
    obtain ⟨_, ok⟩ := before.ok
    obtain ⟨events, _, answered⟩ := handle_moves ok request
    rcases answered.moves.committed_of h with hin | hbefore
    · refine List.mem_append_right _ ?_
      rw [happening, ← answered.told.loud, List.mem_filter]
      exact ⟨hin, rfl⟩
    · exact List.mem_append_left _ (ih hbefore)

/-! ## 3. Nobody else sees it -/

/-- At this moment nobody else sees a version or a mark of the transaction, and it does not count as
committed unless it has aborted and its entry is gone from the ledger. -/
structure Conceals (history : List Event) (service : Service) (id : Int) : Prop where
  unseen : ∀ {tid : TableId} {table : Table} {row : RowHandle} {v : Version} {stamp : Stamp}
    {view : View}, service.store.tables[tid]? = some table → v ∈ table.chainOf row →
      stamp = v.created ∨ v.deleted = some stamp → stamp.transaction = id →
        view.transaction ≠ id → view.sees service.store.ledger stamp = false
  uncommitted : service.store.ledger.isCommitted id = true → Event.aborted id ∈ history ∧
    service.store.ledger.active[id]? = none ∧ service.store.ledger.committed[id]? = none ∧
      service.store.ledger.aborted[id]? = none

/-- What bears the stamp of somebody else who has not committed is not seen. -/
theorem not_sees_of_not_isCommitted {l : Ledger} {view : View} {stamp : Stamp}
    (hopen : l.isCommitted stamp.transaction = false) (hne : view.transaction ≠ stamp.transaction) :
    view.sees l stamp = false := by
  rw [View.sees, if_neg (Ne.symm hne), Ledger.isVisible, Bool.or_eq_false_iff]
  exact ⟨beq_false_of_ne (Ne.symm hne), Ledger.not_committedBy hopen _⟩

theorem Conceals.of_not_isCommitted (hopen : service.store.ledger.isCommitted id = false) :
    service.Conceals history id where
  unseen _ _ _ hid hne := by
    subst hid
    exact not_sees_of_not_isCommitted hopen hne
  uncommitted h := by
    rw [hopen] at h
    cases h

/-- A transaction that will still be running later is concealed now. -/
theorem Onward.conceals (onward : Onward history service history' service')
    (reached : Reached history service) {snapshot : Int}
    (running : service'.store.ledger.active[id]? = some snapshot) :
    service.Conceals history id := by
  obtain ⟨_, ok⟩ := reached.ok
  obtain ⟨_, ok'⟩ := (onward.reached reached).ok
  refine .of_not_isCommitted (Bool.eq_false_iff.mpr fun hcommitted => ?_)
  have hlater := (onward.grows reached).isCommitted ok.store.ledger hcommitted
  rw [Ledger.not_isCommitted_of_active ok'.store.ledger running] at hlater
  cases hlater

/-- Nothing is left of a transaction that has aborted. -/
theorem Reached.none_of_aborted (reached : Reached history service)
    (few : service.store.ledger.lastId < 2 ^ 40) (haborted : Event.aborted id ∈ history)
    {tid : TableId} {table : Table} (here : service.store.tables[tid]? = some table)
    {row : RowHandle} {v : Version} (hv : v ∈ table.chainOf row) :
    v.created.transaction ≠ id ∧ ∀ stamp, v.deleted = some stamp → stamp.transaction ≠ id := by
  obtain ⟨work, ok, shows⟩ := reached.shows few
  have inOrder := (shows.tables here).inOrder (ok.store.tables here) ok.store.ledger ok.store.runs
    shows.ledger shows.work few (Table.rows_eq (List.ne_nil_of_mem hv))
  obtain ⟨hcreated, hdeleted⟩ := inOrder.unaborted v hv
  refine ⟨?_, fun stamp hstamp => ?_⟩
  · rintro rfl
    exact hcreated haborted
  · rintro rfl
    exact hdeleted stamp hstamp haborted

/-- A transaction that has aborted is concealed. -/
theorem Reached.conceals_aborted (reached : Reached history service)
    (few : service.store.ledger.lastId < 2 ^ 40) (haborted : Event.aborted id ∈ history) :
    service.Conceals history id where
  unseen {tid table row v stamp view} here hv hstamp hid := by
    obtain ⟨hcreated, hdeleted⟩ := reached.none_of_aborted few haborted here hv
    rcases hstamp with rfl | hstamp
    · exact absurd hid hcreated
    · exact absurd hid (hdeleted stamp hstamp)
  uncommitted hcommitted := by
    obtain ⟨_, ok, shows⟩ := reached.shows few
    obtain ⟨_, hactive, hnot⟩ := shows.ledger.aborted (Chronicle.mem_aborted_of haborted)
    have hrecord : service.store.ledger.committed[id]? = none := by
      refine Option.eq_none_iff_forall_ne_some.mpr fun c hc => ?_
      obtain ⟨s, hs⟩ := Chronicle.exists_committedAt (reached.committed_of hc)
      exact hnot s hs
    rw [Ledger.isCommitted_iff ok.store.ledger, Ledger.committedBy_iff] at hcommitted
    rcases hcommitted with ⟨_, ⟨c, hc, _⟩ | ⟨_, _, _, hgone, _⟩⟩
    · rw [hrecord] at hc
      cases hc
    · exact ⟨haborted, hactive, hrecord, hgone⟩

end Service

/-! ## 4. A chain without a transaction -/

namespace Version

theorem unmark_unmark (v : Version) (id : Int) : (v.unmark id).unmark id = v.unmark id := by
  by_cases h : (v.deleted.any (·.transaction == id)) = true
  · have hunmark : v.unmark id = { v with deletion := 0 } := by rw [unmark, if_pos h]
    rw [hunmark]
    exact ite_self _
  · have hunmark : v.unmark id = v := by rw [unmark, if_neg h]
    rw [hunmark, hunmark]

theorem unmark_eq_self {v : Version} {id : Int}
    (h : ∀ stamp, v.deleted = some stamp → stamp.transaction ≠ id) : v.unmark id = v := by
  rw [unmark, if_neg]
  rw [Option.any_eq_true]
  rintro ⟨stamp, hstamp, heq⟩
  exact h stamp hstamp (eq_of_beq heq)

end Version

namespace Chain

variable {l : Ledger} {id : Int} {entry : LogEntry} {log : List LogEntry} {chain : Chain}

/-- The chain as if the transaction had not touched the row: without its versions and its mark. -/
def without (id : Int) (chain : Chain) : Chain :=
  (chain.filter fun v => decide (v.created.transaction ≠ id)).map (·.unmark id)

/-- Taking back the last write of a transaction changes nothing but what is the transaction's. -/
theorem Layered.without_undo (layered : Layered l id (entry :: log) chain) (tidy : Tidy chain) :
    (chain.undo id entry.write).without id = chain.without id := by
  obtain ⟨s, table, write⟩ := entry
  cases write with
  | created row version isNewRow =>
    obtain ⟨v, older, rfl, hid, hcreated, hnew, _⟩ := layered_created.mp layered
    have hdropped : without id (v :: older) = without id older := by
      rw [without, List.filter_cons, if_neg (by rw [hcreated]; simp [Stamp.of])]
      rfl
    rw [hdropped, Chain.undo]
    split
    · rename_i hisNew
      rw [hnew.mp hisNew]
    · rw [unlink, if_pos hid]
  | marked row version =>
    obtain ⟨v, older, rfl, hid, _, _, _⟩ := layered_marked.mp layered
    have hmarked : (v.mark (.of id s)).id = version := by rw [Version.id_mark, hid]
    rw [Chain.undo, ← hmarked, tidy.change_cons, without, without, List.filter_cons,
      List.filter_cons, Version.created_unmark]
    split
    · rw [List.map_cons, List.map_cons, Version.unmark_unmark]
    · rfl
  | bound => exact layered.elim
  | outdated => exact layered.elim

theorem Layered.without_undoLog (layered : Layered l id log chain) (tidy : Tidy chain) :
    (chain.undoLog id log).without id = chain.without id := by
  induction log generalizing chain with
  | nil => rfl
  | cons entry log ih =>
    rw [← layered.without_undo tidy]
    exact ih (layered.undo tidy) (tidy.undo id entry.write)

theorem without_eq_self (h : ∀ v ∈ chain, v.created.transaction ≠ id ∧
    ∀ stamp, v.deleted = some stamp → stamp.transaction ≠ id) : chain.without id = chain := by
  rw [without, List.filter_eq_self.mpr fun v hv => decide_eq_true (h v hv).1]
  conv_rhs => rw [← List.map_id chain]
  exact List.map_congr_left fun v hv => Version.unmark_eq_self (h v hv).2

/-- Whoever sees nothing of a transaction reads what there would be without it. -/
theorem record?_read_without {view : View}
    (unseen : ∀ v ∈ chain, ∀ stamp, stamp = v.created ∨ v.deleted = some stamp →
      stamp.transaction = id → view.sees l stamp = false) :
    ((chain.without id).read l view).record? = (chain.read l view).record? := by
  -- A version of its own that is dropped was not seen, and a mark of its own that is taken off hid
  -- nothing.
  induction chain with
  | nil => rfl
  | cons v older ih =>
    have hrest := ih fun w hw => unseen w (List.mem_cons_of_mem _ hw)
    have hcreated := unseen v List.mem_cons_self v.created (Or.inl rfl)
    have hdeleted := fun stamp h => unseen v List.mem_cons_self stamp (Or.inr h)
    by_cases hmine : v.created.transaction = id
    · have hdropped : without id (v :: older) = without id older := by
        rw [without, List.filter_cons, if_neg (by simp [hmine])]
        rfl
      rw [hdropped, hrest, Chain.read, if_neg (by rw [hcreated hmine]; exact Bool.false_ne_true)]
    · have hkept : without id (v :: older) = v.unmark id :: without id older := by
        rw [without, List.filter_cons, if_pos (decide_eq_true hmine)]
        rfl
      have hmark : (v.unmark id).deleted.any (view.sees l) = v.deleted.any (view.sees l) := by
        rw [Version.unmark]
        split
        · rename_i hany
          rw [Option.any_eq_true] at hany
          obtain ⟨stamp, hstamp, heq⟩ := hany
          rw [hstamp, Option.any_some, hdeleted stamp hstamp (eq_of_beq heq)]
          rfl
        · rfl
      rw [hkept, Chain.read, Chain.read, Version.created_unmark, hmark]
      split
      · split
        · rfl
        · exact congrArg some (Version.record_unmark v id)
      · exact hrest

end Chain

/-- Others read every row as if the transaction had not touched it. -/
theorem Service.Conceals.read {history : List Event} {service : Service} {id : Int}
    (conceals : service.Conceals history id) {view : View} (hne : view.transaction ≠ id)
    {tid : TableId} {table : Table} (here : service.store.tables[tid]? = some table)
    (row : RowHandle) :
    (((table.chainOf row).without id).read service.store.ledger view).record? =
      ((table.chainOf row).read service.store.ledger view).record? :=
  Chain.record?_read_without fun _ hv _ hstamp hid => conceals.unseen here hv hstamp hid hne

end SnapshotStore
