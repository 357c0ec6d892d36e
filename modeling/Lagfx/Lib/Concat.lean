import Mathlib.Tactic.Linarith

/-! Parts one behind the other: where a position of the whole lies. Nothing here refers to a
device. -/
namespace Lagfx.Concat
variable {α : Type*}

/-- Where the `i`-th of parts of these sizes starts, the first at `base`. -/
def start (base : Nat) (sizes : List Nat) (i : Nat) : Nat := base+(sizes.take i).sum

/-- The part that a position falls into, and the position in it. -/
def locate : List Nat → Nat → Option (Nat × Nat)
  | [], _ => none
  | n::ns, q => if q < n then some (0, q) else (locate ns (q-n)).map fun c => (c.1+1, c.2)

@[simp] theorem start_zero (base : Nat) (sizes : List Nat) : start base sizes 0 = base := rfl

@[simp] theorem start_cons_succ (base n : Nat) (sizes : List Nat) (i : Nat) :
    start base (n::sizes) (i+1) = start (base+n) sizes i := by
  rw [start, start, List.take_succ_cons, List.sum_cons, Nat.add_assoc]

theorem start_add (base n : Nat) (sizes : List Nat) (i : Nat) :
    start (base+n) sizes i = n+start base sizes i := by
  rw [start, start]
  omega

theorem start_le_succ (base : Nat) (sizes : List Nat) (i : Nat) :
    start base sizes i ≤ start base sizes (i+1) := by
  rw [start, start, List.take_add_one, List.sum_append]
  omega

theorem base_le_start (base : Nat) (sizes : List Nat) (i : Nat) : base ≤ start base sizes i :=
  Nat.le_add_right ..

theorem start_succ {base : Nat} {sizes : List Nat} {i n : Nat} (h : sizes[i]? = some n) :
    start base sizes (i+1) = start base sizes i+n := by
  rw [start, start, List.take_add_one, h, List.sum_append]
  simp only [Option.toList_some, List.sum_singleton, Nat.add_assoc]

/-- A position is in a part when it is as far behind the part's start. -/
theorem locate_eq_some_iff {sizes : List Nat} {q i k : Nat} :
    locate sizes q = some (i, k) ↔ (∃ n, sizes[i]? = some n ∧ k < n) ∧ q = start 0 sizes i+k := by
  induction sizes generalizing q i with
  | nil => simp [locate]
  | cons n ns ih =>
    rw [locate]
    cases i with
    | zero =>
      split_ifs with hq
      · simp only [Option.some.injEq, Prod.mk.injEq, true_and, List.getElem?_cons_zero,
          exists_eq_left', start_zero, Nat.zero_add]
        constructor
        · intro h
          exact ⟨h ▸ hq, h⟩
        · intro h
          exact h.2
      · refine iff_of_false ?_ fun h => ?_
        · simp
        · obtain ⟨⟨n', hn, hk⟩, hsum⟩ := h
          cases hn
          rw [start_zero] at hsum
          omega
    | succ i =>
      have hbase := start_add 0 n ns i
      rw [List.getElem?_cons_succ, start_cons_succ]
      split_ifs with hq
      · refine iff_of_false (fun h => ?_) fun h => ?_
        · cases h
        · omega
      · have hmap : (locate ns (q-n)).map (fun c => (c.1+1, c.2)) = some (i+1, k) ↔
            locate ns (q-n) = some (i, k) := by
          simp
        rw [hmap, ih]
        refine and_congr_right fun _ => ?_
        omega

/-- The part and the place in it read the concatenation. -/
theorem flatten_getElem? (parts : List (List α)) (q : Nat) :
    parts.flatten[q]? = (locate (parts.map List.length) q).bind fun c =>
      parts[c.1]?.bind fun part => part[c.2]? := by
  induction parts generalizing q with
  | nil => rfl
  | cons part parts ih =>
    rw [List.flatten_cons, List.map_cons, locate]
    split_ifs with hq
    · rw [List.getElem?_append_left hq]
      rfl
    · rw [List.getElem?_append_right (Nat.le_of_not_lt hq), ih, Option.bind_map]
      rfl

end Lagfx.Concat
