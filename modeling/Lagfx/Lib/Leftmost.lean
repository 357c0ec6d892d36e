import Mathlib.Data.List.Infix
import Mathlib.Data.Nat.Find

/-! Occurrences replaced from the left: a sequence is cut at the leftmost occurrences that do
not overlap, and each of them is replaced. What an occurrence is, is a parameter. -/
namespace Lagfx.Leftmost
variable {α : Type*}

/-- `Begins s t`: `s` begins with the occurrence `t`. -/
abbrev Pattern (α : Type*) := List α → List α → Prop

variable {Begins : Pattern α}

/-- No occurrence anywhere. -/
def Free (Begins : Pattern α) (s : List α) : Prop := ∀ i t, ¬Begins (s.drop i) t

/-- An occurrence and what stands before it, back to the one before. -/
structure Piece (α : Type*) where
  gap : List α
  hit : List α

inductive Cut (Begins : Pattern α) : List α → List (Piece α) → List α → Prop
  | done {s : List α} (h : Free Begins s) : Cut Begins s [] s
  | hit {p t s last : List α} {ps : List (Piece α)}
      (hfirst : ∀ i < p.length, ∀ u, ¬Begins ((p++(t++s)).drop i) u) (hhit : Begins (t++s) t)
      (hrest : Cut Begins s ps last) : Cut Begins (p++(t++s)) (⟨p, t⟩::ps) last

/-- The pieces with `f` of each occurrence in its place. -/
def substitute (f : List α → List α) (ps : List (Piece α)) (last : List α) : List α :=
  ps.flatMap (fun x => x.gap++f x.hit)++last

theorem substitute_cons (f : List α → List α) (p t last : List α) (ps : List (Piece α)) :
    substitute f (⟨p, t⟩::ps) last = p++(f t++substitute f ps last) := by
  rw [substitute, List.flatMap_cons, substitute, List.append_assoc, List.append_assoc]

/-- Every sequence can be cut, where an occurrence is a part that is not empty. -/
theorem exists_cut (hpart : ∀ s t, Begins s t → t ≠ [] ∧ t <+: s) (s : List α) :
    ∃ ps last, Cut Begins s ps last := by
  classical
  induction hn : s.length using Nat.strong_induction_on generalizing s with
  | _ n ih =>
    by_cases hfree : Free Begins s
    · exact ⟨[], s, .done hfree⟩
    · have hex : ∃ i, ∃ t, Begins (s.drop i) t := by
        by_contra hno
        exact hfree fun i t h => hno ⟨i, t, h⟩
      obtain ⟨i, ⟨t, ht⟩, hmin⟩ : ∃ i, (∃ t, Begins (s.drop i) t) ∧
          ∀ j < i, ¬∃ t, Begins (s.drop j) t :=
        ⟨Nat.find hex, Nat.find_spec hex, fun _ => Nat.find_min hex⟩
      obtain ⟨hne, rest, hrest⟩ := hpart _ _ ht
      have hs : s.take i++(t++rest) = s := by rw [hrest, List.take_append_drop]
      have hlt : rest.length < n := by
        have hlen := congrArg List.length hs
        have hpos := List.length_pos_iff.2 hne
        simp only [List.length_append] at hlen
        omega
      obtain ⟨ps, last, hcut⟩ := ih rest.length hlt rest rfl
      have hfirst : ∀ j < (s.take i).length, ∀ u, ¬Begins ((s.take i++(t++rest)).drop j) u := by
        intro j hj u hu
        rw [hs] at hu
        exact hmin j (hj.trans_le (List.length_take_le i s)) ⟨u, hu⟩
      have hall := Cut.hit hfirst (hrest.symm ▸ ht) hcut
      rw [hs] at hall
      exact ⟨_, _, hall⟩

/-- What is put in keeps new occurrences out: none begins before it and reaches into it, and
none begins in it. -/
structure Inert (Begins : Pattern α) (f : List α → List α) : Prop where
  before : ∀ {q t s out : List α}, q ≠ [] → Begins (t++s) t → (∀ u, ¬Begins (q++(t++s)) u) →
    ∀ u, ¬Begins (q++(f t++out)) u
  inside : ∀ {s t out : List α} {j : Nat}, Begins s t → j < (f t).length →
    ∀ u, ¬Begins ((f t).drop j++out) u

/-- No occurrence is left. -/
theorem Cut.free {f : List α → List α} (hf : Inert Begins f) {s last : List α}
    {ps : List (Piece α)} (h : Cut Begins s ps last) : Free Begins (substitute f ps last) := by
  induction h with
  | done hfree => exact hfree
  | @hit p t s last ps hfirst hhit hrest ih =>
    intro i u hu
    rw [substitute_cons] at hu
    by_cases hp : i < p.length
    · rw [List.drop_append_of_le_length hp.le] at hu
      have hold := hfirst i hp
      rw [List.drop_append_of_le_length hp.le] at hold
      exact hf.before (List.ne_nil_of_length_pos (by rw [List.length_drop]; omega)) hhit hold u hu
    · obtain ⟨j, rfl⟩ := Nat.exists_eq_add_of_le (Nat.not_lt.1 hp)
      rw [List.drop_length_add_append] at hu
      by_cases hj : j < (f t).length
      · rw [List.drop_append_of_le_length hj.le] at hu
        exact hf.inside hhit hj u hu
      · obtain ⟨k, rfl⟩ := Nat.exists_eq_add_of_le (Nat.not_lt.1 hj)
        rw [List.drop_length_add_append] at hu
        exact ih k u hu

/-- A cut has pieces exactly when there is an occurrence. -/
theorem Cut.nil_iff {s last : List α} {ps : List (Piece α)} (h : Cut Begins s ps last) :
    ps = [] ↔ Free Begins s := by
  cases h with
  | done hfree => exact iff_of_true rfl hfree
  | @hit p t s _ ps _ hhit _ =>
    refine iff_of_false (List.cons_ne_nil _ _) fun hfree => ?_
    have hno := hfree p.length t
    rw [List.drop_left] at hno
    exact hno hhit

end Lagfx.Leftmost
