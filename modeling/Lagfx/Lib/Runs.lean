import Mathlib.Tactic.Linarith

/-! Deterministic runs: a step function folded over a list of events, the states
visited on the way, and the rule that turns one step into a whole run. -/
namespace Lagfx.Runs
variable {σ ε : Type*} (step : σ → ε → σ)

/-- Every state of the run, the start included. -/
def visited : σ → List ε → List σ
  | s, [] => [s]
  | s, e :: es => s :: visited (step s e) es

/-- `P` holds of each event in the state it meets. -/
def AllSteps (P : σ → ε → Prop) : σ → List ε → Prop
  | _, [] => True
  | s, e :: es => P s e ∧ AllSteps P (step s e) es

instance allStepsDecidable {P : σ → ε → Prop} [∀ s e, Decidable (P s e)] :
    ∀ (es : List ε) (s : σ), Decidable (AllSteps step P s es)
  | [], _ => isTrue trivial
  | e :: es, s =>
    have := allStepsDecidable (P := P) es (step s e)
    inferInstanceAs (Decidable (P s e ∧ AllSteps step P (step s e) es))

theorem start_mem_visited (s : σ) (es : List ε) : s ∈ visited step s es := by
  cases es <;> simp [visited]

/-- Exact rule for a property of states: where the invariant holds a step reaches it
exactly under `P`, and `P` keeps the invariant. -/
theorem visited_iff {Inv Q : σ → Prop} {P : σ → ε → Prop} (hq : ∀ s, Inv s → Q s)
    (h : ∀ s e, Inv s → (Q (step s e) ↔ P s e)) (hi : ∀ s e, Inv s → P s e → Inv (step s e)) :
    ∀ (es : List ε) (s : σ), Inv s →
      ((∀ t ∈ visited step s es, Q t) ↔ AllSteps step P s es) := by
  intro es
  induction es with
  | nil =>
    intro s hs
    simp [visited, AllSteps, hq s hs]
  | cons e es ih =>
    intro s hs
    simp only [visited, List.forall_mem_cons, AllSteps]
    constructor
    · rintro ⟨_, hall⟩
      have hp := (h s e hs).mp (hall _ (start_mem_visited step (step s e) es))
      exact ⟨hp, (ih _ (hi s e hs hp)).mp hall⟩
    · rintro ⟨hp, hrest⟩
      exact ⟨hq s hs, (ih _ (hi s e hs hp)).mpr hrest⟩

/-- The same when the property is the invariant. -/
theorem visited_inv_iff {Inv : σ → Prop} {P : σ → ε → Prop}
    (h : ∀ s e, Inv s → (Inv (step s e) ↔ P s e)) (es : List ε) (s : σ) (hs : Inv s) :
    (∀ t ∈ visited step s es, Inv t) ↔ AllSteps step P s es :=
  visited_iff step (fun _ => id) h (fun s e hs hp => (h s e hs).mpr hp) es s hs

/-- Invariant rule: what every step preserves holds in every state visited. -/
theorem visited_inv {Inv : σ → Prop} (h : ∀ s e, Inv s → Inv (step s e)) :
    ∀ (es : List ε) (s : σ), Inv s → ∀ t ∈ visited step s es, Inv t := by
  intro es
  induction es with
  | nil =>
    intro s hs t ht
    obtain rfl : t = s := by simpa [visited] using ht
    exact hs
  | cons e es ih =>
    intro s hs t ht
    rcases List.mem_cons.mp ht with rfl | ht
    · exact hs
    · exact ih (step s e) (h s e hs) t ht

/-- A fact about the states visited, whatever the event, is one about the steps. -/
theorem allSteps_of_visited {P : σ → ε → Prop} :
    ∀ (es : List ε) (s : σ), (∀ t ∈ visited step s es, ∀ e, P t e) → AllSteps step P s es := by
  intro es
  induction es with
  | nil => intro s _; trivial
  | cons e es ih =>
    intro s h
    exact ⟨h s List.mem_cons_self e, ih _ fun t ht => h t (List.mem_cons_of_mem _ ht)⟩

theorem AllSteps.imp {P Q : σ → ε → Prop} (h : ∀ s e, P s e → Q s e) :
    ∀ (es : List ε) (s : σ), AllSteps step P s es → AllSteps step Q s es := by
  intro es
  induction es with
  | nil => intro s _; trivial
  | cons e es ih => intro s hp; exact ⟨h s e hp.1, ih _ hp.2⟩

theorem allSteps_append {P : σ → ε → Prop} (bs : List ε) :
    ∀ (as : List ε) (s : σ), AllSteps step P s (as ++ bs) ↔
      AllSteps step P s as ∧ AllSteps step P (as.foldl step s) bs := by
  intro as
  induction as with
  | nil => intro s; simp [AllSteps]
  | cons a as ih =>
    intro s
    simp only [List.cons_append, AllSteps, ih, List.foldl_cons, and_assoc]

/-- Exact rule for a property of steps: where the invariant holds it is `P`, and a step
that has it keeps the invariant. -/
theorem allSteps_iff {Inv : σ → Prop} {P Q : σ → ε → Prop}
    (h : ∀ s e, Inv s → (Q s e ↔ P s e)) (hi : ∀ s e, Inv s → Q s e → Inv (step s e)) :
    ∀ (es : List ε) (s : σ), Inv s → (AllSteps step Q s es ↔ AllSteps step P s es) := by
  intro es
  induction es with
  | nil => intro s _; exact Iff.rfl
  | cons e es ih =>
    intro s hs
    constructor
    · rintro ⟨hq, hrest⟩
      exact ⟨(h s e hs).mp hq, (ih _ (hi s e hs hq)).mp hrest⟩
    · rintro ⟨hp, hrest⟩
      have hq := (h s e hs).mpr hp
      exact ⟨hq, (ih _ (hi s e hs hq)).mpr hrest⟩

theorem allSteps_congr {P Q : σ → ε → Prop} (h : ∀ s e, P s e ↔ Q s e)
    (es : List ε) (s : σ) : AllSteps step P s es ↔ AllSteps step Q s es :=
  ⟨AllSteps.imp step (fun s e => (h s e).mp) es s, AllSteps.imp step (fun s e => (h s e).mpr) es s⟩

end Lagfx.Runs
