import Mathlib.Data.List.Basic
import Mathlib.Logic.Function.Basic

/-! Instructions run in a line, the runs of a rewritten line, and names that two
environments need not agree on. -/
namespace Lagfx.Ssa
variable {ι σ σ' ε ε' V : Type*}

/-- What one instruction does: go on, leave for a label, leave the function, or nothing. -/
inductive Step (σ ε : Type*) where
  | next (s : σ)
  | jump (l : Nat) (s : σ)
  | exit (e : ε)
  | stuck

def Step.andThen : Step σ ε → (σ → Step σ ε) → Step σ ε
  | .next s, k => k s
  | .jump l s, _ => .jump l s
  | .exit e, _ => .exit e
  | .stuck, _ => .stuck

def runInsns (exec : ι → σ → Step σ ε) : List ι → σ → Step σ ε
  | [], s => .next s
  | i :: is, s => (exec i s).andThen (runInsns exec is)

/-- Outcomes that match: `R` where the line goes on, `J` where it leaves for the same
label, `E` where it leaves the function. -/
inductive Step.Rel (R J : σ → σ' → Prop) (E : ε → ε' → Prop) :
    Step σ ε → Step σ' ε' → Prop where
  | next {s s'} (h : R s s') : Step.Rel R J E (.next s) (.next s')
  | jump {l s s'} (h : J s s') : Step.Rel R J E (.jump l s) (.jump l s')
  | exit {e e'} (h : E e e') : Step.Rel R J E (.exit e) (.exit e')
  | stuck : Step.Rel R J E .stuck .stuck

/-- A fact of every state an outcome goes on with, and of what it leaves with. -/
def Step.All (P : σ → Prop) (Q : ε → Prop) : Step σ ε → Prop
  | .next s => P s
  | .jump _ s => P s
  | .exit e => Q e
  | .stuck => True

variable {exec : ι → σ → Step σ ε} {exec' : ι → σ' → Step σ' ε'}
variable {R Q J : σ → σ' → Prop} {E : ε → ε' → Prop}

theorem runInsns_single (i : ι) (s : σ) : runInsns exec [i] s = exec i s := by
  simp only [runInsns]
  cases exec i s <;> rfl

theorem runInsns_append (a b : List ι) (s : σ) :
    runInsns exec (a ++ b) s = (runInsns exec a s).andThen (runInsns exec b) := by
  induction a generalizing s with
  | nil => rfl
  | cons i is ih =>
    simp only [List.cons_append, runInsns]
    cases exec i s with
    | next t => exact ih t
    | jump l t => rfl
    | exit e => rfl
    | stuck => rfl

/-- Matching first parts, then matching second parts. -/
theorem runInsns_append_rel {a b a' b' : List ι} {s : σ} {s' : σ'}
    (ha : Step.Rel Q J E (runInsns exec a s) (runInsns exec' a' s'))
    (hb : ∀ t t', Q t t' → Step.Rel R J E (runInsns exec b t) (runInsns exec' b' t')) :
    Step.Rel R J E (runInsns exec (a ++ b) s) (runInsns exec' (a' ++ b') s') := by
  rw [runInsns_append, runInsns_append]
  generalize runInsns exec a s = o at ha ⊢
  generalize runInsns exec' a' s' = o' at ha ⊢
  cases ha with
  | next h => exact hb _ _ h
  | jump h => exact .jump h
  | exit h => exact .exit h
  | stuck => exact .stuck

/-- Line rewritten instruction by instruction. -/
theorem runInsns_flatMap_rel {rw : ι → List ι} {is : List ι}
    (h : ∀ i ∈ is, ∀ s s', R s s' →
      Step.Rel R J E (exec i s) (runInsns exec' (rw i) s')) :
    ∀ s s', R s s' →
      Step.Rel R J E (runInsns exec is s) (runInsns exec' (is.flatMap rw) s') := by
  induction is with
  | nil => exact fun s s' hs => .next hs
  | cons i is ih =>
    intro s s' hs
    rw [List.flatMap_cons]
    refine runInsns_append_rel (a := [i]) (Q := R) ?_ ?_
    · rw [runInsns_single]
      exact h i List.mem_cons_self s s' hs
    · exact ih fun j hj => h j (List.mem_cons_of_mem i hj)

/-- A fact every instruction of a line keeps. -/
theorem runInsns_all {P : σ → Prop} {Q : ε → Prop} {is : List ι}
    (h : ∀ i ∈ is, ∀ s, P s → (exec i s).All P Q) :
    ∀ s, P s → (runInsns exec is s).All P Q := by
  induction is with
  | nil => exact fun s hs => hs
  | cons i is ih =>
    intro s hs
    have hi := h i List.mem_cons_self s hs
    rw [runInsns]
    cases ho : exec i s with
    | next t =>
      rw [ho] at hi
      exact ih (fun j hj => h j (List.mem_cons_of_mem i hj)) t hi
    | jump l t => rw [ho] at hi; exact hi
    | exit e => rw [ho] at hi; exact hi
    | stuck => trivial

/-- Matching outcomes, with a fact of the first. -/
theorem Step.Rel.and {P : σ → Prop} {Q : ε → Prop} {o : Step σ ε} {o' : Step σ' ε'}
    (h : Step.Rel R J E o o') (ha : o.All P Q) :
    Step.Rel (fun s s' => R s s' ∧ P s) (fun s s' => J s s' ∧ P s) E o o' := by
  cases h with
  | next h => exact .next ⟨h, ha⟩
  | jump h => exact .jump ⟨h, ha⟩
  | exit h => exact .exit h
  | stuck => exact .stuck

/-- Where nothing jumps, what jumps would have to keep does not matter. -/
theorem Step.Rel.noJump {J' : σ → σ' → Prop} {o : Step σ ε} {o' : Step σ' ε'}
    (h : Step.Rel R J E o o') (hj : ∀ l s, o ≠ .jump l s) : Step.Rel R J' E o o' := by
  cases h with
  | next h => exact .next h
  | jump h => exact absurd rfl (hj _ _)
  | exit h => exact .exit h
  | stuck => exact .stuck

/-- Environments equal off the names of `D`. -/
def AgreeOff (D : Nat → Prop) (ρ ρ' : Nat → V) : Prop := ∀ x, ¬ D x → ρ x = ρ' x

theorem AgreeOff.map {D : Nat → Prop} {ρ ρ' : Nat → V} (h : AgreeOff D ρ ρ') {xs : List Nat}
    (hx : ∀ x ∈ xs, ¬ D x) : xs.map ρ = xs.map ρ' :=
  List.map_congr_left fun x hm => h x (hx x hm)

theorem AgreeOff.mono {D D' : Nat → Prop} {ρ ρ' : Nat → V} (h : AgreeOff D ρ ρ')
    (hd : ∀ x, D x → D' x) : AgreeOff D' ρ ρ' := fun x hx => h x fun hD => hx (hd x hD)

theorem AgreeOff.update {D : Nat → Prop} {ρ ρ' : Nat → V} (h : AgreeOff D ρ ρ') (r : Nat)
    (v : V) : AgreeOff D (Function.update ρ r v) (Function.update ρ' r v) := by
  intro x hx
  by_cases hr : x = r
  · subst hr
    simp
  · simp only [Function.update_of_ne hr]
    exact h x hx

theorem AgreeOff.updateLeft {D : Nat → Prop} {ρ ρ' : Nat → V} (h : AgreeOff D ρ ρ') {r : Nat}
    (hr : D r) (v : V) : AgreeOff D (Function.update ρ r v) ρ' := by
  intro x hx
  have hne : x ≠ r := by
    rintro rfl
    exact hx hr
  rw [Function.update_of_ne hne]
  exact h x hx

theorem AgreeOff.updateRight {D : Nat → Prop} {ρ ρ' : Nat → V} (h : AgreeOff D ρ ρ') {r : Nat}
    (hr : D r) (v : V) : AgreeOff D ρ (Function.update ρ' r v) := by
  intro x hx
  have hne : x ≠ r := by
    rintro rfl
    exact hx hr
  rw [Function.update_of_ne hne]
  exact h x hx

end Lagfx.Ssa
