import Lagfx.Lib.Ssa

/-! Lines that run to their end: what holds where a line ends, piece by piece, and what the
rest of a line does from there. -/
namespace Lagfx.Ssa
variable {ι σ ε : Type*} {exec : ι → σ → Step σ ε}

/-- The line runs to its end, and `Q` holds there. -/
def Lands (exec : ι → σ → Step σ ε) (is : List ι) (Q : σ → Prop) (s : σ) : Prop :=
  ∃ t, runInsns exec is s = .next t ∧ Q t

theorem lands_nil {Q : σ → Prop} {s : σ} (h : Q s) : Lands exec [] Q s := ⟨s, rfl, h⟩

theorem Lands.imp {is : List ι} {Q R : σ → Prop} {s : σ} (h : Lands exec is Q s)
    (hQ : ∀ t, Q t → R t) : Lands exec is R s := by
  obtain ⟨t, ht, hq⟩ := h
  exact ⟨t, ht, hQ t hq⟩

/-- What follows a piece that lands runs from where it landed. -/
theorem Lands.rest {a b : List ι} {Q : σ → Prop} {P : Step σ ε → Prop} {s : σ}
    (ha : Lands exec a Q s) (hb : ∀ t, Q t → P (runInsns exec b t)) :
    P (runInsns exec (a ++ b) s) := by
  obtain ⟨t, ht, hq⟩ := ha
  rw [runInsns_append, ht]
  exact hb t hq

theorem Lands.append {a b : List ι} {Q R : σ → Prop} {s : σ} (ha : Lands exec a Q s)
    (hb : ∀ t, Q t → Lands exec b R t) : Lands exec (a ++ b) R s := by
  refine ha.rest (P := fun o => ∃ t, o = .next t ∧ R t) ?_
  intro t hq
  exact hb t hq

theorem lands_single {i : ι} {Q : σ → Prop} {s t : σ} (h : exec i s = .next t) (hq : Q t) :
    Lands exec [i] Q s := ⟨t, by rw [runInsns_single, h], hq⟩

theorem Lands.cons {i : ι} {is : List ι} {Q : σ → Prop} {s t : σ} (h : exec i s = .next t)
    (ht : Lands exec is Q t) : Lands exec (i :: is) Q s := by
  refine (lands_single h (Q := (· = t)) rfl).append (a := [i]) ?_
  rintro u rfl
  exact ht

/-- The line leaves for the label `l`, and `Q` holds there. -/
def Jumps (exec : ι → σ → Step σ ε) (is : List ι) (l : Nat) (Q : σ → Prop) (s : σ) : Prop :=
  ∃ t, runInsns exec is s = .jump l t ∧ Q t

theorem jumps_single {i : ι} {l : Nat} {Q : σ → Prop} {s t : σ} (h : exec i s = .jump l t)
    (hq : Q t) : Jumps exec [i] l Q s := ⟨t, by rw [runInsns_single, h], hq⟩

theorem Jumps.imp {is : List ι} {l : Nat} {Q R : σ → Prop} {s : σ} (h : Jumps exec is l Q s)
    (hQ : ∀ t, Q t → R t) : Jumps exec is l R s := by
  obtain ⟨t, ht, hq⟩ := h
  exact ⟨t, ht, hQ t hq⟩

theorem Lands.jumps {a b : List ι} {l : Nat} {Q R : σ → Prop} {s : σ} (ha : Lands exec a Q s)
    (hb : ∀ t, Q t → Jumps exec b l R t) : Jumps exec (a ++ b) l R s :=
  ha.rest (P := fun o => ∃ t, o = .jump l t ∧ R t) hb

theorem Jumps.cons {i : ι} {is : List ι} {l : Nat} {Q : σ → Prop} {s t : σ}
    (h : exec i s = .next t) (ht : Jumps exec is l Q t) : Jumps exec (i :: is) l Q s := by
  refine (lands_single h (Q := (· = t)) rfl).jumps (a := [i]) ?_
  rintro u rfl
  exact ht

end Lagfx.Ssa
