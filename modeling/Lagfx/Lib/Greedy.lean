import Mathlib.Data.List.Basic

/-! Choice from the left: of numbered candidates, each that clashes with none chosen before it.
What a candidate is and which two clash, are parameters. -/
namespace Lagfx.Greedy

def Chosen (Cand : Nat → Prop) (Clash : Nat → Nat → Prop) (i : Nat) : Prop :=
  Cand i ∧ ∀ j, j < i → Chosen Cand Clash j → ¬Clash j i
termination_by i

variable {Cand : Nat → Prop} {Clash : Nat → Nat → Prop} {n i : Nat} {picks : List Nat}

theorem chosen_iff :
    Chosen Cand Clash i ↔ Cand i ∧ ∀ j < i, Chosen Cand Clash j → ¬Clash j i := by
  rw [Chosen]

/-- `picks` lists in order what is chosen before `n`. -/
structure Picked (Cand : Nat → Prop) (Clash : Nat → Nat → Prop) (n : Nat)
    (picks : List Nat) : Prop where
  mem_iff : ∀ i, i ∈ picks ↔ i < n ∧ Chosen Cand Clash i
  sorted : picks.Pairwise fun i j => i < j

theorem Picked.start (h : ∀ i < n, ¬Cand i) : Picked Cand Clash n [] where
  mem_iff i := by
    constructor
    · intro hi
      cases hi
    · intro hi
      exact absurd (chosen_iff.1 hi.2).1 (h i hi.1)
  sorted := List.Pairwise.nil

/-- Whether the next candidate is chosen, can be told from the list. -/
theorem Picked.chosen_iff (h : Picked Cand Clash n picks) :
    Chosen Cand Clash n ↔ Cand n ∧ ∀ j ∈ picks, ¬Clash j n := by
  rw [Greedy.chosen_iff]
  apply and_congr_right
  intro _
  constructor
  · intro hall j hj
    obtain ⟨hlt, hc⟩ := (h.mem_iff j).1 hj
    exact hall j hlt hc
  · intro hall j hlt hc
    exact hall j ((h.mem_iff j).2 ⟨hlt, hc⟩)

theorem Picked.pass (h : Picked Cand Clash n picks) (hn : ¬Chosen Cand Clash n) :
    Picked Cand Clash (n+1) picks where
  mem_iff i := by
    rw [h.mem_iff]
    apply and_congr_left
    intro hi
    have hne : i ≠ n := fun he => hn (he ▸ hi)
    omega
  sorted := h.sorted

/-- A choice rules out the candidates it clashes with, here the `w-1` behind it. -/
theorem Picked.take (h : Picked Cand Clash n picks) (hn : Chosen Cand Clash n) {w : Nat}
    (hw : 0 < w) (hclash : ∀ i, n < i → i < n+w → Clash n i) :
    Picked Cand Clash (n+w) (picks++[n]) where
  mem_iff i := by
    rw [List.mem_append, List.mem_singleton, h.mem_iff]
    constructor
    · intro hi
      obtain ⟨hlt, hc⟩ | rfl := hi
      · exact ⟨by omega, hc⟩
      · exact ⟨by omega, hn⟩
    · intro hi
      obtain ⟨hlt, hc⟩ := hi
      by_cases hbefore : i < n
      · exact Or.inl ⟨hbefore, hc⟩
      · by_cases he : i = n
        · exact Or.inr he
        · have hafter : n < i := by omega
          exact absurd (hclash i hafter hlt) ((Greedy.chosen_iff.1 hc).2 n hafter hn)
  sorted := by
    rw [List.pairwise_append]
    refine ⟨h.sorted, List.pairwise_singleton _ _, ?_⟩
    intro j hj k hk
    obtain rfl := List.mem_singleton.1 hk
    exact ((h.mem_iff j).1 hj).1

/-- No two that are chosen clash. -/
theorem Picked.apart (h : Picked Cand Clash n picks) :
    picks.Pairwise fun i j => ¬Clash i j := by
  apply List.Pairwise.imp_of_mem _ h.sorted
  intro i j hi hj hlt
  exact (Greedy.chosen_iff.1 ((h.mem_iff j).1 hj).2).2 i hlt ((h.mem_iff i).1 hi).2

end Lagfx.Greedy
