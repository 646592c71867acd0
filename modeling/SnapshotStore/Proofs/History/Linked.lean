import Mathlib
import SnapshotStore.Proofs.History.Prospects

/-!
# Deeds and the versions that are left of them

A row has been given more records than its chain has versions: reclamation cuts a chain below a version
that everybody sees. This is about which deed a version comes from and which versions are there. A version
in reach is the record of a deed on top of which nobody has put a record that everybody sees
(`Spells.of_mem_reach`). The other way round, the record of such a deed is linked
(`Shows.mem_of_open`), and the newest version bears the last record that the row was given
(`Spells.last_record`).
-/

namespace SnapshotStore

namespace Chain

variable {l : Ledger} {horizon : Int} {deed : Deed} {deeds later earlier : List Deed}
  {chain older dropped : Chain} {v : Version} {record : Record}

/-- A version in reach is the record of a deed, and the records on top of it are not seen by
everybody. -/
theorem Spells.of_mem_reach (h : Spells deeds (chain ++ dropped)) (hv : v ∈ reach l horizon chain) :
    ∃ later deed earlier, deeds = later ++ deed :: earlier ∧ deed.record? = some v.record ∧
      v.created.transaction = deed.transaction ∧
      ∀ d ∈ later, d.record?.isSome = true → l.committedBy d.transaction horizon = false := by
  induction deeds generalizing chain v with
  | nil =>
    obtain ⟨rfl, _⟩ := List.append_eq_nil_iff.mp h
    cases hv
  | cons deed deeds ih =>
    cases chain with
    | nil => cases hv
    | cons newest older =>
      cases hrecord : deed.record? with
      | some record =>
        obtain ⟨w, rest, heq, hw, hcreated, _, hrest⟩ := (spells_record hrecord).mp h
        obtain ⟨rfl, rfl⟩ := List.cons.inj heq
        rcases mem_reach_cons.mp hv with rfl | ⟨hopen, hv⟩
        · refine ⟨[], deed, deeds, rfl, by rw [hrecord, hw], by rw [hcreated]; rfl, ?_⟩
          intro d hd
          cases hd
        · obtain ⟨later, found, earlier, rfl, hfound, hcreator, hlater⟩ := ih hrest hv
          refine ⟨deed :: later, found, earlier, rfl, hfound, hcreator, fun d hd hsome => ?_⟩
          rcases List.mem_cons.mp hd with rfl | hd
          · rw [hcreated] at hopen
            exact hopen
          · exact hlater d hd hsome
      | none =>
        -- The deletion is on top of the deed that the newest version comes from.
        obtain ⟨w, rest, heq, _, _, hrest⟩ := (spells_deletion hrecord).mp h
        obtain ⟨rfl, rfl⟩ := List.cons.inj heq
        have hbelow : ∃ u ∈ reach l horizon (w :: older),
            u.record = v.record ∧ u.created = v.created := by
          rcases mem_reach_cons.mp hv with rfl | ⟨hopen, hv⟩
          · exact ⟨w, newest_mem_reach _ _ _ _, rfl, rfl⟩
          · exact ⟨v, mem_reach_cons.mpr (Or.inr ⟨hopen, hv⟩), rfl, rfl⟩
        obtain ⟨u, hu, hsame, hcreated⟩ := hbelow
        obtain ⟨later, found, earlier, rfl, hfound, hcreator, hlater⟩ := ih hrest hu
        refine ⟨deed :: later, found, earlier, rfl, hsame ▸ hfound, hcreated ▸ hcreator,
          fun d hd hsome => ?_⟩
        rcases List.mem_cons.mp hd with rfl | hd
        · rw [hrecord] at hsome
          cases hsome
        · exact hlater d hd hsome

/-- The newest version bears the last record that the row was given. -/
theorem Spells.last_record (h : Spells deeds (v :: older)) :
    ∃ deed, deeds.find? (·.record?.isSome) = some deed ∧ deed.record? = some v.record := by
  induction deeds generalizing v older with
  | nil => cases h
  | cons deed deeds ih =>
    cases hrecord : deed.record? with
    | some record =>
      obtain ⟨w, rest, heq, hw, _⟩ := (spells_record hrecord).mp h
      obtain ⟨rfl, rfl⟩ := List.cons.inj heq
      refine ⟨deed, List.find?_cons_of_pos (by rw [hrecord]; rfl), by rw [hrecord, hw]⟩
    | none =>
      obtain ⟨w, rest, heq, _, _, hrest⟩ := (spells_deletion hrecord).mp h
      obtain ⟨rfl, rfl⟩ := List.cons.inj heq
      rw [List.find?_cons_of_neg (by rw [hrecord]; exact Bool.false_ne_true), Version.record_mark]
      exact ih hrest

/-- A record is linked while everybody sees none of those on top of it, unless the row is gone. -/
theorem Shows.mem_of_open (h : Shows l (later ++ deed :: earlier) chain) (there : chain ≠ [])
    (records : ∀ d ∈ (later ++ deed :: earlier).tail, d.record?.isSome = true)
    (hopen : ∀ d ∈ later, d.record?.isSome = true → l.committedBy d.transaction l.horizon = false)
    (hrecord : deed.record? = some record) : ∃ v ∈ chain, v.record = record := by
  -- Down to the deed: a record above it is open, and so the chain is not cut off at its version.
  induction later generalizing chain with
  | nil =>
    cases chain with
    | nil => exact absurd rfl there
    | cons newest older => exact ⟨newest, List.mem_cons_self, (h.newest_record hrecord).1⟩
  | cons last later ih =>
    rw [List.cons_append] at h records
    have hrecords : ∀ d ∈ (later ++ deed :: earlier).tail, d.record?.isSome = true :=
      fun d hd => records d (List.mem_of_mem_tail hd)
    have hlater : ∀ d ∈ later, d.record?.isSome = true →
        l.committedBy d.transaction l.horizon = false :=
      fun d hd => hopen d (List.mem_cons_of_mem _ hd)
    cases chain with
    | nil => exact absurd rfl there
    | cons newest older =>
      cases hlast : last.record? with
      | some record =>
        have hbelow := h.below hlast (hopen last List.mem_cons_self (by rw [hlast]; rfl))
        have hthere : older ≠ [] := by
          rintro rfl
          cases hrest : later ++ deed :: earlier with
          | nil => simp at hrest
          | cons first rest =>
            rw [hrest] at hbelow records
            obtain ⟨_, _, hnil⟩ := hbelow.exists_newest fun hnone => by
              have hsome := records first List.mem_cons_self
              rw [hnone] at hsome
              cases hsome
            cases hnil
        obtain ⟨v, hv, hsame⟩ := ih hbelow hthere hrecords hlater
        exact ⟨v, List.mem_cons_of_mem _ hv, hsame⟩
      | none =>
        obtain ⟨w, rfl, _, hbelow⟩ := h.unmark hlast
        obtain ⟨v, hv, hsame⟩ := ih hbelow (List.cons_ne_nil _ _) hrecords hlater
        rcases List.mem_cons.mp hv with rfl | hv
        · exact ⟨_, List.mem_cons_self, hsame⟩
        · exact ⟨v, List.mem_cons_of_mem _ hv, hsame⟩

end Chain

/-- Below a deed that everybody sees there are none but such. -/
theorem Work.Shows.pairwise_settled {l : Ledger} {work : Work} {c : Chronicle}
    (shows : work.Shows c) (lok : l.Ok) (wok : Work.Ok l work) (sound : c.Sound)
    (attests : l.Attests c) (id : Int) (tid : TableId) (row : RowHandle) :
    (c.writes id tid row ++ c.settled tid row).Pairwise fun later earlier =>
      l.committedBy later.transaction l.horizon = true →
        l.committedBy earlier.transaction l.horizon = true := by
  have hpending : ∀ deed ∈ c.writes id tid row, l.committedBy deed.transaction l.horizon = false := by
    intro deed hdeed
    obtain ⟨s, hs⟩ := shows.running wok (List.ne_nil_of_mem hdeed)
    rw [Chronicle.transaction_of_mem_writes sound hdeed]
    exact Ledger.not_committedBy (Ledger.not_isCommitted_of_active lok hs) _
  refine List.pairwise_append.mpr ⟨?_, ?_, fun later hlater _ _ hsettled => ?_⟩
  · refine List.Pairwise.imp_of_mem (R := fun _ _ => True) (fun hlater _ _ hsettled => ?_)
      (List.pairwise_of_forall fun _ _ => trivial)
    rw [hpending _ hlater] at hsettled
    cases hsettled
  · refine (Chronicle.pairwise_settled sound tid row).imp ?_
    rintro later earlier ⟨s, s', hs, hs', hle⟩ hsettled
    rw [attests.committedBy hs (Int.le_refl _), decide_eq_true_iff] at hsettled
    rw [attests.committedBy hs' (Int.le_refl _)]
    exact decide_eq_true (Int.le_trans hle hsettled)
  · rw [hpending later hlater] at hsettled
    cases hsettled

end SnapshotStore
