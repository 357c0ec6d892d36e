import Mathlib.Data.List.Perm.Basic
import Mathlib.Data.List.Induction

/-! Insertion sort in place: each key moves down past the larger ones before it. -/
namespace Lagfx.InsertionSort
variable {α β : Type*} (gt : α → α → Prop) [DecidableRel gt]

/-- The key among the sorted elements, these read from their end. -/
def insertBack (key : α) : List α → List α
  | [] => [key]
  | x :: xs => if gt x key then x :: insertBack key xs else key :: x :: xs

def sort (l : List α) : List α :=
  (l.foldl (fun sorted key => insertBack gt key sorted) []).reverse

theorem insertBack_perm (key : α) (l : List α) : (insertBack gt key l).Perm (key :: l) := by
  induction l with
  | nil => exact List.Perm.refl _
  | cons x xs ih =>
    rw [insertBack]
    by_cases h : gt x key
    · rw [if_pos h]
      exact (ih.cons x).trans (List.Perm.swap key x xs)
    · rw [if_neg h]

theorem sort_perm (l : List α) : (sort gt l).Perm l := by
  have hfold : (l.foldl (fun sorted key => insertBack gt key sorted) []).Perm l := by
    induction l using List.reverseRecOn with
    | nil => exact List.Perm.refl _
    | append_singleton l key ih =>
      rw [List.foldl_append, List.foldl_cons, List.foldl_nil]
      have hkey := (insertBack_perm gt key _).trans (ih.cons key)
      exact hkey.trans (List.perm_append_singleton key l).symm
  exact (List.reverse_perm _).trans hfold

/-- What `gt` has to be: no two elements above each other, and not being above passes on. -/
structure Order (gt : α → α → Prop) : Prop where
  asymm : ∀ x y, gt x y → ¬ gt y x
  trans : ∀ x y z, ¬ gt x y → ¬ gt y z → ¬ gt x z

variable {gt}

theorem insertBack_sorted (ho : Order gt) (key : α) {l : List α}
    (hl : l.Pairwise fun a b => ¬ gt b a) :
    (insertBack gt key l).Pairwise fun a b => ¬ gt b a := by
  induction l with
  | nil => exact List.pairwise_singleton _ _
  | cons x xs ih =>
    obtain ⟨hx, hxs⟩ := List.pairwise_cons.mp hl
    rw [insertBack]
    by_cases h : gt x key
    · rw [if_pos h, List.pairwise_cons]
      refine ⟨?_, ih hxs⟩
      intro y hy
      obtain rfl | hy := List.mem_cons.1 ((insertBack_perm gt key xs).mem_iff.1 hy)
      · exact ho.asymm x y h
      · exact hx y hy
    · rw [if_neg h, List.pairwise_cons]
      refine ⟨?_, hl⟩
      intro y hy
      obtain rfl | hy := List.mem_cons.1 hy
      · exact h
      · exact ho.trans y x key (hx y hy) h

/-- The sorted list has no element after a larger one. -/
theorem sort_sorted (ho : Order gt) (l : List α) : (sort gt l).Pairwise fun a b => ¬ gt a b := by
  have hfold : (l.foldl (fun sorted key => insertBack gt key sorted) []).Pairwise
      fun a b => ¬ gt b a := by
    induction l using List.reverseRecOn with
    | nil => exact List.Pairwise.nil
    | append_singleton l key ih =>
      rw [List.foldl_append, List.foldl_cons, List.foldl_nil]
      exact insertBack_sorted ho key ih
  exact List.pairwise_reverse.mpr hfold

variable {gt' : β → β → Prop} [DecidableRel gt']

/-- Sorting goes through a map that keeps the order between the elements at hand. -/
theorem sort_map (f : α → β) (l : List α)
    (hf : ∀ x ∈ l, ∀ y ∈ l, (gt' (f x) (f y) ↔ gt x y)) :
    sort gt' (l.map f) = (sort gt l).map f := by
  have hback : ∀ (key : α) (xs : List α), (∀ x ∈ xs, (gt' (f x) (f key) ↔ gt x key)) →
      insertBack gt' (f key) (xs.map f) = (insertBack gt key xs).map f := by
    intro key xs
    induction xs with
    | nil => intro _; rfl
    | cons x xs ih =>
      intro h
      have hx := h x List.mem_cons_self
      rw [List.map_cons, insertBack, insertBack]
      by_cases hgt : gt x key
      · rw [if_pos (hx.2 hgt), if_pos hgt, List.map_cons,
          ih fun y hy => h y (List.mem_cons_of_mem x hy)]
      · rw [if_neg fun h' => hgt (hx.1 h'), if_neg hgt]
        rfl
  have hfold : (l.map f).foldl (fun sorted key => insertBack gt' key sorted) [] =
      (l.foldl (fun sorted key => insertBack gt key sorted) []).map f ∧
      (l.foldl (fun sorted key => insertBack gt key sorted) []).Perm l := by
    induction l using List.reverseRecOn with
    | nil => exact ⟨rfl, List.Perm.refl _⟩
    | append_singleton l key ih =>
      obtain ⟨heq, hperm⟩ := ih fun x hx y hy =>
        hf x (List.mem_append_left _ hx) y (List.mem_append_left _ hy)
      rw [List.map_append, List.foldl_append, heq, List.foldl_append, List.map_singleton,
        List.foldl_cons, List.foldl_nil, List.foldl_cons, List.foldl_nil]
      constructor
      · refine hback key _ fun x hx => hf x ?_ key (by simp)
        exact List.mem_append_left _ (hperm.mem_iff.1 hx)
      · exact ((insertBack_perm gt key _).trans (hperm.cons key)).trans
          (List.perm_append_singleton key l).symm
  rw [sort, sort, hfold.1, List.map_reverse]

end Lagfx.InsertionSort
