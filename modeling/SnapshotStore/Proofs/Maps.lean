import Mathlib

/-!
# Maps whose keys are equal when they compare equal

The library speaks of a key that *compares* equal to another. All maps of the store have keys for
which that is equality, and the lemmas here say so once, in the form in which a change of a map is
looked at: what is found under any key afterwards.
-/

namespace SnapshotStore
namespace Maps

variable {α β : Type} {cmp : α → α → Ordering} [Std.TransCmp cmp] [Std.LawfulEqCmp cmp]
  [DecidableEq α]

theorem get_insert (m : Std.ExtTreeMap α β cmp) (k a : α) (v : β) :
    (m.insert k v)[a]? = if a = k then some v else m[a]? := by
  rw [Std.ExtTreeMap.getElem?_insert]
  simp only [Std.LawfulEqCmp.compare_eq_iff_eq]
  exact if_congr eq_comm rfl rfl

/-- Putting in what is there changes nothing. -/
theorem insert_self {m : Std.ExtTreeMap α β cmp} {k : α} {v : β} (h : m[k]? = some v) :
    m.insert k v = m := by
  refine Std.ExtTreeMap.ext_getElem? fun a => ?_
  rw [get_insert]
  split
  · rename_i heq
    rw [heq, h]
  · rfl

/-- Only what was put in last counts. -/
theorem insert_insert (m : Std.ExtTreeMap α β cmp) (k : α) (v w : β) :
    (m.insert k v).insert k w = m.insert k w := by
  refine Std.ExtTreeMap.ext_getElem? fun a => ?_
  rw [get_insert, get_insert, get_insert]
  split <;> rfl

/-- It does not matter which of two keys is put in first. -/
theorem insert_comm {k k' : α} (h : k ≠ k') (m : Std.ExtTreeMap α β cmp) (v w : β) :
    (m.insert k v).insert k' w = (m.insert k' w).insert k v := by
  refine Std.ExtTreeMap.ext_getElem? fun a => ?_
  rw [get_insert, get_insert, get_insert, get_insert]
  by_cases hk : a = k
  · rw [if_pos hk, if_pos hk, if_neg (by rw [hk]; exact h)]
  · rw [if_neg hk, if_neg hk]

/-- Maps that look the same at every key go on to do so when what looks the same is put in. -/
theorem insert_congr {γ : Type} {look : Option β → γ} {m m' : Std.ExtTreeMap α β cmp}
    (same : ∀ a : α, look m[a]? = look m'[a]?) (k : α) {v v' : β}
    (h : look (some v) = look (some v')) (a : α) :
    look (m.insert k v)[a]? = look (m'.insert k v')[a]? := by
  rw [get_insert, get_insert]
  split
  · exact h
  · exact same a

theorem get_erase (m : Std.ExtTreeMap α β cmp) (k a : α) :
    (m.erase k)[a]? = if a = k then none else m[a]? := by
  rw [Std.ExtTreeMap.getElem?_erase]
  simp only [Std.LawfulEqCmp.compare_eq_iff_eq]
  exact if_congr eq_comm rfl rfl

/-- So they do when the same key is taken out. -/
theorem erase_congr {γ : Type} {look : Option β → γ} {m m' : Std.ExtTreeMap α β cmp}
    (same : ∀ a : α, look m[a]? = look m'[a]?) (k a : α) :
    look (m.erase k)[a]? = look (m'.erase k)[a]? := by
  rw [get_erase, get_erase]
  split
  · rfl
  · exact same a

theorem get_modify (m : Std.ExtTreeMap α β cmp) (k a : α) (f : β → β) :
    (m.modify k f)[a]? = if a = k then m[a]?.map f else m[a]? := by
  rw [Std.ExtTreeMap.getElem?_modify]
  by_cases h : a = k
  · subst h
    simp
  · rw [if_neg h, if_neg]
    rw [Std.LawfulEqCmp.compare_eq_iff_eq]
    exact fun hk => h hk.symm

/-- What looks the same is not there in both, or is there in both and looks the same. -/
theorem cases_of_map_eq {γ : Type} {look : β → γ} {x y : Option β}
    (same : x.map look = y.map look) :
    (x = none ∧ y = none) ∨ ∃ v w, x = some v ∧ y = some w ∧ look v = look w := by
  cases x with
  | none => exact Or.inl ⟨rfl, Option.map_eq_none_iff.mp same.symm⟩
  | some v =>
    obtain ⟨w, hw, heq⟩ := Option.map_eq_some_iff.mp same.symm
    exact Or.inr ⟨v, w, rfl, hw, heq.symm⟩

omit [DecidableEq α]

/-- What was kept is kept again. -/
theorem filter_filter (m : Std.ExtTreeMap α β cmp) (p : α → β → Bool) :
    (m.filter p).filter p = m.filter p := by
  refine Std.ExtTreeMap.ext_getElem? fun a => ?_
  rw [Std.ExtTreeMap.getElem?_filter', Std.ExtTreeMap.getElem?_filter', Option.filter_filter]
  simp only [Bool.and_self]

/-- What was filtered out is not there. -/
theorem filter_not_filter (m : Std.ExtTreeMap α β cmp) (p : α → β → Bool) :
    (m.filter fun a b => !p a b).filter p = ∅ := by
  refine Std.ExtTreeMap.ext_getElem? fun a => ?_
  rw [Std.ExtTreeMap.getElem?_filter', Std.ExtTreeMap.getElem?_filter', Option.filter_filter,
    Std.ExtTreeMap.getElem?_empty]
  simp

end Maps
end SnapshotStore
