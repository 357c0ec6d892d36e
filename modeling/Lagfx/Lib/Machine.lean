import Mathlib.Order.Basic

/-! A machine that takes one step at a time until it returns: its runs, what every
state of a run satisfies, and when a run ends. -/
namespace Lagfx.Machine

variable {σ ρ : Type*} (step : σ → σ ⊕ ρ)

/-- After `n` steps from `s`, or what was returned before. -/
def run : Nat → σ → σ ⊕ ρ
  | 0, s => .inl s
  | n+1, s => match step s with
    | .inl t => run n t
    | .inr r => .inr r

def Reaches (s t : σ) : Prop := ∃ n, run step n s = .inl t

def Returns (s : σ) (r : ρ) : Prop := ∃ n, run step n s = .inr r

/-- What `f` reads off each state of the first `n` steps, in order. -/
def trace {α : Type*} (f : σ → List α) : Nat → σ → List α
  | 0, _ => []
  | n+1, s => f s ++ match step s with
    | .inl t => trace f n t
    | .inr _ => []

variable {step}

theorem trace_succ_inl {α : Type*} (f : σ → List α) {s t : σ} (h : step s = .inl t) (n : Nat) :
    trace step f (n+1) s = f s ++ trace step f n t := by
  rw [trace, h]

theorem trace_succ_inr {α : Type*} (f : σ → List α) {s : σ} {r : ρ} (h : step s = .inr r)
    (n : Nat) : trace step f (n+1) s = f s := by
  rw [trace, h]
  exact List.append_nil _

theorem run_succ_inl {s t : σ} (h : step s = .inl t) (n : Nat) :
    run step (n+1) s = run step n t := by
  rw [run, h]

theorem run_succ_inr {s : σ} {r : ρ} (h : step s = .inr r) (n : Nat) :
    run step (n+1) s = .inr r := by
  rw [run, h]

theorem run_add (m : Nat) : ∀ (n : Nat) (s : σ), run step (n+m) s =
    match run step n s with
    | .inl t => run step m t
    | .inr r => .inr r := by
  intro n
  induction n with
  | zero =>
    intro s
    rw [Nat.zero_add]
    rfl
  | succ n ih =>
    intro s
    rw [show n+1+m = n+m+1 by omega]
    cases h : step s with
    | inl t => rw [run_succ_inl h, run_succ_inl h, ih]
    | inr r => rw [run_succ_inr h, run_succ_inr h]

theorem reaches_refl (s : σ) : Reaches step s s := ⟨0, rfl⟩

theorem Reaches.trans {s t u : σ} (h : Reaches step s t) (h' : Reaches step t u) :
    Reaches step s u := by
  obtain ⟨n, hn⟩ := h
  obtain ⟨m, hm⟩ := h'
  exact ⟨n+m, by rw [run_add, hn, ← hm]⟩

theorem reaches_step {s t : σ} (h : step s = .inl t) : Reaches step s t :=
  ⟨1, by rw [run_succ_inl h]; rfl⟩

theorem returns_step {s : σ} {r : ρ} (h : step s = .inr r) : Returns step s r :=
  ⟨1, run_succ_inr h 0⟩

theorem Reaches.returns {s t : σ} {r : ρ} (h : Reaches step s t) (h' : Returns step t r) :
    Returns step s r := by
  obtain ⟨n, hn⟩ := h
  obtain ⟨m, hm⟩ := h'
  exact ⟨n+m, by rw [run_add, hn, ← hm]⟩

theorem reaches_iff {s u : σ} :
    Reaches step s u ↔ u = s ∨ ∃ t, step s = .inl t ∧ Reaches step t u := by
  constructor
  · rintro ⟨n, hn⟩
    cases n with
    | zero => cases hn; exact .inl rfl
    | succ n =>
      cases hst : step s with
      | inl t => rw [run_succ_inl hst] at hn; exact .inr ⟨t, rfl, n, hn⟩
      | inr r => rw [run_succ_inr hst] at hn; cases hn
  · rintro (rfl | ⟨t, hst, ht⟩)
    · exact reaches_refl u
    · exact (reaches_step hst).trans ht

/-- What holds in every state of a run holds now and in every state after the first step. -/
theorem reaches_forall {P : σ → Prop} {s t : σ} (h : step s = .inl t) :
    (∀ u, Reaches step s u → P u) ↔ P s ∧ ∀ u, Reaches step t u → P u := by
  constructor
  · intro hp
    exact ⟨hp s (reaches_refl s), fun u hu => hp u ((reaches_step h).trans hu)⟩
  · rintro ⟨hs, ht⟩ u hu
    rcases reaches_iff.1 hu with rfl | ⟨t', hst, hu⟩
    · exact hs
    · rw [h] at hst
      cases hst
      exact ht u hu

/-- A run that returns visits no state but those of its trace. -/
theorem Reaches.mem_trace {α : Type*} {f : σ → List α} {n : Nat} {s u : σ} {r : ρ} {a : α}
    (h : Reaches step s u) (hrun : run step n s = .inr r) (ha : a ∈ f u) :
    a ∈ trace step f n s := by
  induction n generalizing s with
  | zero => cases hrun
  | succ n ih =>
    rcases reaches_iff.1 h with rfl | ⟨t, hst, ht⟩
    · rw [trace]
      exact List.mem_append_left _ ha
    · rw [run_succ_inl hst] at hrun
      rw [trace_succ_inl f hst]
      exact List.mem_append_right _ (ih ht hrun)

/-- What is read off a run is read off a state of it. -/
theorem exists_of_mem_trace {α : Type*} {f : σ → List α} {n : Nat} {s : σ} {a : α}
    (h : a ∈ trace step f n s) : ∃ u, Reaches step s u ∧ a ∈ f u := by
  induction n generalizing s with
  | zero => cases h
  | succ n ih =>
    cases hst : step s with
    | inl t =>
      rw [trace_succ_inl f hst] at h
      rcases List.mem_append.1 h with h | h
      · exact ⟨s, reaches_refl s, h⟩
      · obtain ⟨u, hu, ha⟩ := ih h
        exact ⟨u, (reaches_step hst).trans hu, ha⟩
    | inr r =>
      rw [trace_succ_inr f hst] at h
      exact ⟨s, reaches_refl s, h⟩

theorem trace_filterMap {α β : Type*} (f : σ → List α) (g : α → Option β) (n : Nat) (s : σ) :
    trace step (fun u => (f u).filterMap g) n s = (trace step f n s).filterMap g := by
  induction n generalizing s with
  | zero => rfl
  | succ n ih =>
    cases hst : step s with
    | inl t => rw [trace_succ_inl _ hst, trace_succ_inl _ hst, List.filterMap_append, ih]
    | inr r => rw [trace_succ_inr _ hst, trace_succ_inr _ hst]

/-- What each step keeps holds in every state of a run. -/
theorem Reaches.inv {I : σ → Prop} (h : ∀ s t, I s → step s = .inl t → I t) {s t : σ}
    (hs : I s) (hr : Reaches step s t) : I t := by
  obtain ⟨n, hn⟩ := hr
  induction n generalizing s with
  | zero => cases hn; exact hs
  | succ n ih =>
    cases hst : step s with
    | inl u =>
      rw [run_succ_inl hst] at hn
      exact ih (h s u hs hst) hn
    | inr r => rw [run_succ_inr hst] at hn; cases hn

/-- A result is the result of the last step of the run. -/
theorem Returns.last {s : σ} {r : ρ} (h : Returns step s r) :
    ∃ t, Reaches step s t ∧ step t = .inr r := by
  obtain ⟨n, hn⟩ := h
  induction n generalizing s with
  | zero => cases hn
  | succ n ih =>
    cases hst : step s with
    | inl u =>
      rw [run_succ_inl hst] at hn
      obtain ⟨t, ht, hr⟩ := ih hn
      exact ⟨t, (reaches_step hst).trans ht, hr⟩
    | inr r' =>
      rw [run_succ_inr hst] at hn
      cases hn
      exact ⟨s, reaches_refl s, hst⟩

theorem Returns.unique {s : σ} {r r' : ρ} (h : Returns step s r) (h' : Returns step s r') :
    r = r' := by
  obtain ⟨n, hn⟩ := h
  obtain ⟨m, hm⟩ := h'
  have hnm : run step (n+m) s = .inr r := by rw [run_add, hn]
  have hmn : run step (m+n) s = .inr r' := by rw [run_add, hm]
  rw [Nat.add_comm, hmn] at hnm
  cases hnm
  rfl

/-- A run that each step brings closer to its end returns. -/
theorem returns_of_measure {I : σ → Prop} (μ : σ → Nat)
    (h : ∀ s t, I s → step s = .inl t → I t ∧ μ t < μ s) {s : σ} (hs : I s) :
    ∃ r, Returns step s r := by
  generalize hm : μ s = m
  induction m using Nat.strongRecOn generalizing s with
  | ind m ih =>
    cases hst : step s with
    | inl t =>
      obtain ⟨ht, hlt⟩ := h s t hs hst
      obtain ⟨r, hr⟩ := ih (μ t) (by omega) ht rfl
      exact ⟨r, (reaches_step hst).returns hr⟩
    | inr r => exact ⟨r, returns_step hst⟩

/-- A run that comes to a state which steps to itself does not return. -/
theorem not_returns_of_fixed {s t : σ} (h : Reaches step s t) (hfix : step t = .inl t) (r : ρ) :
    ¬ Returns step s r := by
  rintro ⟨n, hn⟩
  obtain ⟨k, hk⟩ := h
  have hstay : ∀ m, run step m t = .inl t := by
    intro m
    induction m with
    | zero => rfl
    | succ m ih => rw [run_succ_inl hfix, ih]
  have hnk : run step (n+k) s = .inr r := by rw [run_add, hn]
  rw [Nat.add_comm, run_add, hk] at hnk
  simp only [hstay] at hnk
  cases hnk

/-- Every state of a run that ends is on the way to its last one. -/
theorem Reaches.to_last {s t e : σ} {r : ρ} (ht : Reaches step s t) (he : Reaches step s e)
    (hlast : step e = .inr r) : Reaches step t e := by
  obtain ⟨n, hn⟩ := ht
  obtain ⟨m, hm⟩ := he
  rcases Nat.lt_or_ge m n with hlt | hge
  · have hrun : run step (m+(n-m)) s = _ := run_add (n-m) m s
    rw [Nat.add_sub_cancel' (Nat.le_of_lt hlt), hn, hm] at hrun
    obtain ⟨k, hk⟩ := Nat.exists_eq_succ_of_ne_zero (Nat.sub_ne_zero_of_lt hlt)
    simp only [hk, run_succ_inr hlast] at hrun
    cases hrun
  · have hrun : run step (n+(m-n)) s = _ := run_add (m-n) n s
    rw [Nat.add_sub_cancel' hge, hn, hm] at hrun
    exact ⟨m-n, hrun.symm⟩

/- A log that some steps empty and any step may add to. -/

/-- What is in such a log at the end: what the last emptying step and those after it add,
and what was in it at first if no step empties it. -/
theorem forall_log {γ : Type*} (Inv R : σ → Prop) (add : σ → σ → List γ) (val : σ → List γ)
    (P : γ → Prop) (hinv : ∀ s t, Inv s → step s = .inl t → Inv t)
    (hkeep : ∀ s t, Inv s → ¬ R s → step s = .inl t → val t = val s ++ add s t)
    (hclear : ∀ s t, Inv s → R s → step s = .inl t → val t = add s t)
    {s e : σ} {r : ρ} (hs : Inv s) (he : Reaches step s e) (hlast : step e = .inr r) (hre : ¬ R e) :
    (∀ x ∈ val e, P x) ↔ ((∀ u, Reaches step s u → ¬ R u) → ∀ x ∈ val s, P x) ∧
      ∀ u v, Reaches step s u → step u = .inl v → (∀ w, Reaches step v w → ¬ R w) →
        ∀ x ∈ add u v, P x := by
  obtain ⟨n, hn⟩ := he
  induction n generalizing s with
  | zero =>
    cases hn
    have honly : ∀ u, Reaches step e u → u = e := by
      intro u hu
      rcases reaches_iff.1 hu with rfl | ⟨t, ht, -⟩
      · rfl
      · rw [hlast] at ht
        cases ht
    constructor
    · intro hx
      refine ⟨fun _ => hx, fun u v hu hv => ?_⟩
      rw [honly u hu, hlast] at hv
      cases hv
    · intro hx
      exact hx.1 fun u hu => by rwa [honly u hu]
  | succ n ih =>
    cases hst : step s with
    | inr r' => rw [run_succ_inr hst] at hn; cases hn
    | inl t =>
      rw [run_succ_inl hst] at hn
      have hval : (∀ x ∈ val t, P x) ↔ (¬ R s → ∀ x ∈ val s, P x) ∧ ∀ x ∈ add s t, P x := by
        by_cases hR : R s
        · rw [hclear s t hs hR hst]
          exact ⟨fun hx => ⟨fun hno => absurd hR hno, hx⟩, fun hx => hx.2⟩
        · rw [hkeep s t hs hR hst]
          simp only [List.forall_mem_append, hR, not_false_eq_true, true_implies]
      rw [ih (hinv s t hs hst) hn, hval]
      constructor
      · rintro ⟨hnow, hlater⟩
        refine ⟨fun hno => (hnow fun u hu => hno u ((reaches_step hst).trans hu)).1
          (hno s (reaches_refl s)), fun u v hu hv hno => ?_⟩
        rcases reaches_iff.1 hu with rfl | ⟨t', ht', hu'⟩
        · rw [hst] at hv
          cases hv
          exact (hnow hno).2
        · rw [hst] at ht'
          cases ht'
          exact hlater u v hu' hv hno
      · rintro ⟨hnow, hlater⟩
        refine ⟨fun hno => ⟨fun hR => hnow ?_, hlater s t (reaches_refl s) hst hno⟩,
          fun u v hu => hlater u v ((reaches_step hst).trans hu)⟩
        intro u hu
        rcases reaches_iff.1 hu with rfl | ⟨t', ht', hu'⟩
        · exact hR
        · rw [hst] at ht'
          cases ht'
          exact hno u hu'

/-- A run that stays in `P`, its first and its last state included. -/
inductive ReachesIn (step : σ → σ ⊕ ρ) (P : σ → Prop) : σ → σ → Prop
  | refl {s : σ} (h : P s) : ReachesIn step P s s
  | head {s t u : σ} (h : P s) (hst : step s = .inl t) (ht : ReachesIn step P t u) :
      ReachesIn step P s u

theorem ReachesIn.start {P : σ → Prop} {s u : σ} (h : ReachesIn step P s u) : P s := by
  cases h with
  | refl h => exact h
  | head h _ _ => exact h

/-- Over a run in `P`, after a first step: what holds in each of its states. -/
theorem reachesIn_forall {P Q : σ → Prop} {s t : σ} (hs : P s) (hst : step s = .inl t) :
    (∀ u, ReachesIn step P s u → Q u) ↔ Q s ∧ ∀ u, ReachesIn step P t u → Q u := by
  constructor
  · intro h
    exact ⟨h s (.refl hs), fun u hu => h u (.head hs hst hu)⟩
  · rintro ⟨hq, h⟩ u hu
    cases hu with
    | refl _ => exact hq
    | head _ hst' ht =>
      rw [hst] at hst'
      cases hst'
      exact h u ht

end Lagfx.Machine
