import Mathlib.Data.List.Induction
import Mathlib.Data.List.Nodup
import Mathlib.Logic.Function.Basic

/-! A table filled by one pass: each item may write one slot, and the last write stays. -/
namespace Lagfx.WriteTable
variable {ι ι' κ α β : Type*} [DecidableEq κ]

/-- One write, if there is one. -/
def write (t : κ → Option α) (w : Option (κ × α)) : κ → Option α :=
  match w with
  | some (k, v) => Function.update t k (some v)
  | none => t

/-- The table that a list of items leaves. -/
def table (w : ι → Option (κ × α)) (is : List ι) : κ → Option α :=
  is.foldl (fun t i => write t (w i)) fun _ => none

theorem table_append (w : ι → Option (κ × α)) (is : List ι) (i : ι) :
    table w (is++[i]) = write (table w is) (w i) := by
  rw [table, List.foldl_append, List.foldl_cons, List.foldl_nil]
  rfl

/-- A slot holds a value only if an item wrote it. -/
theorem written_of_table {w : ι → Option (κ × α)} {is : List ι} {k : κ} {v : α}
    (h : table w is k = some v) : ∃ i ∈ is, w i = some (k, v) := by
  induction is using List.reverseRecOn with
  | nil => exact absurd h (by simp [table])
  | append_singleton is i ih =>
    rw [table_append] at h
    cases hw : w i with
    | none =>
      rw [hw] at h
      obtain ⟨j, hj, hwj⟩ := ih h
      exact ⟨j, List.mem_append_left _ hj, hwj⟩
    | some p =>
      rw [hw, write] at h
      by_cases hk : k = p.1
      · subst hk
        rw [Function.update_self, Option.some_inj] at h
        exact ⟨i, by simp, by rw [hw, ← h]⟩
      · rw [Function.update_of_ne hk] at h
        obtain ⟨j, hj, hwj⟩ := ih h
        exact ⟨j, List.mem_append_left _ hj, hwj⟩

/-- Where no key is written twice, a slot holds exactly what an item wrote. -/
theorem table_eq_some_iff {w : ι → Option (κ × α)} {is : List ι}
    (hu : ((is.filterMap w).map Prod.fst).Nodup) {k : κ} {v : α} :
    table w is k = some v ↔ ∃ i ∈ is, w i = some (k, v) := by
  refine ⟨written_of_table, ?_⟩
  induction is using List.reverseRecOn with
  | nil =>
    intro h
    obtain ⟨i, hi, -⟩ := h
    exact absurd hi List.not_mem_nil
  | append_singleton is i ih =>
    intro h
    obtain ⟨j, hj, hwj⟩ := h
    rw [List.filterMap_append, List.map_append, List.nodup_append] at hu
    obtain ⟨huis, -, hfresh⟩ := hu
    rw [table_append]
    obtain hj | hj := List.mem_append.1 hj
    · have hold := ih huis ⟨j, hj, hwj⟩
      cases hw : w i with
      | none => exact hold
      | some p =>
        have hmem : k ∈ (is.filterMap w).map Prod.fst :=
          List.mem_map.mpr ⟨(k, v), List.mem_filterMap.mpr ⟨j, hj, hwj⟩, rfl⟩
        have hne : k ≠ p.1 := hfresh k hmem p.1 (by simp [hw])
        rw [write, Function.update_of_ne hne]
        exact hold
    · obtain rfl := List.mem_singleton.1 hj
      rw [hwj, write, Function.update_self]

/-- Keys that are read off the items are no more than these. -/
theorem keys_nodup {w : ι → Option (κ × α)} {key : ι → Option κ} {is : List ι}
    (hk : ∀ i ∈ is, ∀ p, w i = some p → key i = some p.1) (hu : (is.filterMap key).Nodup) :
    ((is.filterMap w).map Prod.fst).Nodup := by
  have hsub : ((is.filterMap w).map Prod.fst).Sublist (is.filterMap key) := by
    induction is with
    | nil => exact List.Sublist.refl _
    | cons i is ih =>
      have hrest := ih (fun j hj => hk j (List.mem_cons_of_mem i hj))
        (hu.sublist ((List.sublist_cons_self i is).filterMap key))
      cases hw : w i with
      | none =>
        rw [List.filterMap_cons_none hw]
        exact hrest.trans ((List.sublist_cons_self i is).filterMap key)
      | some p =>
        rw [List.filterMap_cons_some hw, List.map_cons,
          List.filterMap_cons_some (hk i List.mem_cons_self p hw)]
        exact hrest.cons_cons p.1
  exact hu.sublist hsub

theorem table_iff {w : ι → Option (κ × α)} {key : ι → Option κ} {is : List ι}
    (hk : ∀ i ∈ is, ∀ p, w i = some p → key i = some p.1) (hu : (is.filterMap key).Nodup)
    {k : κ} {v : α} : table w is k = some v ↔ ∃ i ∈ is, w i = some (k, v) :=
  table_eq_some_iff (keys_nodup hk hu)

/-- Items that share a key are one item. -/
theorem eq_of_key {key : ι → Option κ} {is : List ι} (hu : (is.filterMap key).Nodup) {i j : ι}
    {k : κ} (hi : i ∈ is) (hj : j ∈ is) (hki : key i = some k) (hkj : key j = some k) : i = j := by
  induction is with
  | nil => exact absurd hi List.not_mem_nil
  | cons x xs ih =>
    have hfresh : ∀ y ∈ xs, key y = some k → key x ≠ some k := by
      intro y hy hky hkx
      rw [List.filterMap_cons_some hkx, List.nodup_cons] at hu
      exact hu.1 (List.mem_filterMap.mpr ⟨y, hy, hky⟩)
    obtain rfl | hi' := List.mem_cons.1 hi
    · obtain rfl | hj' := List.mem_cons.1 hj
      · rfl
      · exact absurd hki (hfresh j hj' hkj)
    · obtain rfl | hj' := List.mem_cons.1 hj
      · exact absurd hkj (hfresh i hi' hki)
      · exact ih (hu.sublist ((List.sublist_cons_self x xs).filterMap key)) hi' hj'

/-- A table of mapped items. -/
theorem table_map (w : ι → Option (κ × α)) (f : ι' → ι) (is : List ι') :
    table w (is.map f) = table (fun i => w (f i)) is := by
  rw [table, List.foldl_map]
  rfl

/-- Mapping the values written maps the table. -/
theorem table_values (w : ι → Option (κ × α)) (f : α → β) (is : List ι) (k : κ) :
    table (fun i => (w i).map fun p => (p.1, f p.2)) is k = (table w is k).map f := by
  induction is using List.reverseRecOn with
  | nil => rfl
  | append_singleton is i ih =>
    rw [table_append, table_append]
    cases hw : w i with
    | none => exact ih
    | some p =>
      simp only [Option.map_some, write]
      by_cases hk : k = p.1
      · rw [hk, Function.update_self, Function.update_self, Option.map_some]
      · rw [Function.update_of_ne hk, Function.update_of_ne hk]
        exact ih

end Lagfx.WriteTable
