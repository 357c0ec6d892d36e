import Mathlib.Logic.Equiv.Basic
import Mathlib.Data.List.OfFn

/-! Tables under other indices: a row keeps what it says, and references follow. -/
namespace Lagfx

/-- A permutation of the indices of a table of `n` rows; other numbers are no indices. -/
structure Renumbering (n : Nat) where
  perm : Equiv.Perm Nat
  outside : ∀ t, n ≤ t → perm t = t

namespace Renumbering
variable {n : Nat} (σ : Renumbering n)

instance : CoeFun (Renumbering n) fun _ => Nat → Nat := ⟨fun σ => σ.perm⟩

def swap {a b : Nat} (ha : a < n) (hb : b < n) : Renumbering n where
  perm := Equiv.swap a b
  outside t ht := Equiv.swap_apply_of_ne_of_ne (by omega) (by omega)

theorem injective : Function.Injective σ := σ.perm.injective

theorem inj {s t : Nat} : σ s = σ t ↔ s = t := σ.perm.injective.eq_iff

theorem lt_iff {t : Nat} : σ t < n ↔ t < n := by
  constructor
  · intro h
    by_contra ht
    rw [σ.outside t (not_lt.1 ht)] at h
    exact ht h
  · intro h
    by_contra ht
    have hfix := σ.inj.1 (σ.outside (σ t) (not_lt.1 ht))
    exact ht (hfix.symm ▸ h)

theorem symm_lt {t : Nat} (h : t < n) : σ.perm.symm t < n := by
  apply σ.lt_iff.1
  rwa [Equiv.apply_symm_apply]

/-- A table with its rows where `σ` puts them, each rewritten by `f`. -/
def table {α β : Type*} {l : List α} (σ : Renumbering l.length) (f : α → β) : List β :=
  List.ofFn fun j : Fin l.length => f (l.get ⟨σ.perm.symm j, σ.symm_lt j.2⟩)

section
variable {α β : Type*} {l : List α} (σ : Renumbering l.length) (f : α → β)

@[simp] theorem table_length : (σ.table f).length = l.length := List.length_ofFn

theorem table_getElem? (t : Nat) : (σ.table f)[σ t]? = l[t]?.map f := by
  rw [table, List.getElem?_ofFn]
  by_cases h : t < l.length
  · rw [dif_pos (σ.lt_iff.2 h), List.getElem?_eq_getElem h, Option.map_some]
    simp only [Equiv.symm_apply_apply, List.get_eq_getElem]
  · rw [dif_neg (mt σ.lt_iff.1 h), List.getElem?_eq_none (not_lt.1 h), Option.map_none]

theorem mem_table {b : β} : b ∈ σ.table f ↔ ∃ a ∈ l, f a = b := by
  constructor
  · intro h
    obtain ⟨j, hj⟩ := List.mem_ofFn.1 h
    exact ⟨_, List.get_mem .., hj⟩
  · rintro ⟨a, ha, rfl⟩
    obtain ⟨t, ht⟩ := List.mem_iff_getElem?.1 ha
    apply List.mem_of_getElem? (i := σ t)
    rw [table_getElem?, ht, Option.map_some]

end
end Renumbering
end Lagfx
