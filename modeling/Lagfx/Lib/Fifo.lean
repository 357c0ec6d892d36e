import Lagfx.Lib.ByteMemory

/-! Bounded drain loops over a queue. A round serves one item or stops; the rules
below turn facts about one round into facts about a drain, and facts about a
drain into facts about a whole history of appends and drains. -/
namespace Lagfx.Fifo
open ByteMemory
variable {σ τ κ ι : Type*}

section Drain
variable (round : Nat → σ → Option τ) (after : τ → σ)

/-- At most `n` rounds. What a round did is recorded in `τ`, and `after` is the
state it leaves. -/
def drain : Nat → σ → σ × List τ
  | 0, s => (s, [])
  | n+1, s =>
    match round n s with
    | none => (s, [])
    | some t => ((drain n (after t)).1, t::(drain n (after t)).2)

/-- The rounds of a drain, one after the other. -/
inductive Path : σ → List τ → σ → Prop where
  | done (s : σ) : Path s [] s
  | serve {n : Nat} {s s' : σ} {t : τ} {ts : List τ} :
    round n s = some t → Path (after t) ts s' → Path s (t::ts) s'

theorem drain_path : ∀ (n : Nat) (s : σ),
    Path round after s (drain round after n s).2 (drain round after n s).1 := by
  intro n
  induction n with
  | zero => intro s; exact Path.done s
  | succ n ih =>
    intro s
    unfold drain
    cases hr : round n s with
    | none => exact Path.done s
    | some t => exact Path.serve hr (ih (after t))

variable {round after}

/-- Invariant rule: kept by a round, so kept by a drain and met by each round. -/
theorem Path.inv (Inv : σ → Prop) (h : ∀ n s t, Inv s → round n s = some t → Inv (after t))
    {s s' : σ} {ts : List τ} (p : Path round after s ts s') (hs : Inv s) :
    Inv s' ∧ ∀ t ∈ ts, ∃ n s, Inv s ∧ round n s = some t := by
  induction p with
  | done s => exact ⟨hs, by simp⟩
  | serve hr _ ih =>
    obtain ⟨hend, hall⟩ := ih (h _ _ _ hs hr)
    refine ⟨hend, ?_⟩
    intro t ht
    rcases List.mem_cons.mp ht with rfl | ht
    · exact ⟨_, _, hs, hr⟩
    · exact hall t ht

theorem drain_eq_of_none {n : Nat} {s : σ} (h : ∀ n, round n s = none) :
    drain round after n s = (s, []) := by
  cases n with
  | zero => rfl
  | succ n => simp [drain, h n]

/-- Simulation rule: when a round serves the head of the queue the state holds, a
drain serves its first `n` items in order. -/
theorem drain_takes (Holds : σ → List κ → Prop) {seen : τ → ι} {sent : κ → ι} {Good : τ → Prop}
    (hstop : ∀ n s, Holds s [] → round n s = none)
    (hserve : ∀ n s k q, Holds s (k::q) →
      ∃ t, round n s = some t ∧ seen t = sent k ∧ (Good t → Holds (after t) q)) :
    ∀ (n : Nat) (s : σ) (q : List κ), Holds s q →
      (∀ t ∈ (drain round after n s).2, Good t) →
      (drain round after n s).2.map seen = (q.take n).map sent ∧
        Holds (drain round after n s).1 (q.drop n) := by
  intro n
  induction n with
  | zero => intro s q hq _; exact ⟨rfl, hq⟩
  | succ n ih =>
    intro s q hq hgood
    cases q with
    | nil =>
      have hr := hstop n s hq
      simp only [drain, hr]
      exact ⟨rfl, hq⟩
    | cons k q =>
      obtain ⟨t, hr, hk, hnext⟩ := hserve n s k q hq
      simp only [drain, hr, List.forall_mem_cons] at hgood ⊢
      obtain ⟨htake, hdrop⟩ := ih (after t) q (hnext hgood.1) hgood.2
      refine ⟨?_, hdrop⟩
      rw [List.map_cons, hk, htake, List.take_succ_cons, List.map_cons]

/-- When serving a queue is good step by step, everything a drain serves is. -/
theorem drain_forall (Holds : σ → List κ → Prop) {Good : τ → Prop}
    (hstop : ∀ n s, Holds s [] → round n s = none)
    (hserve : ∀ n s k q, Holds s (k::q) →
      ∃ t, round n s = some t ∧ Good t ∧ Holds (after t) q) :
    ∀ (n : Nat) (s : σ) (q : List κ), Holds s q → ∀ t ∈ (drain round after n s).2, Good t := by
  intro n
  induction n with
  | zero => intro s q _ t ht; simp [drain] at ht
  | succ n ih =>
    intro s q hq t ht
    cases q with
    | nil => simp [drain, hstop n s hq] at ht
    | cons k q =>
      obtain ⟨t', hr, hgood, hnext⟩ := hserve n s k q hq
      simp only [drain, hr, List.mem_cons] at ht
      rcases ht with rfl | ht
      · exact hgood
      · exact ih (after t') q hnext t ht

end Drain

section History
variable (Append : σ → List κ → σ → Prop) (Serve : σ → List τ → σ → Prop)

/-- A history of appends and drains: what was produced, what was served. -/
inductive History (s₀ : σ) : List κ → List τ → σ → Prop where
  | start : History s₀ [] [] s₀
  | append {ps ks : List κ} {ds : List τ} {s s' : σ} :
    History s₀ ps ds s → Append s ks s' → History s₀ (ps++ks) ds s'
  | serve {ps : List κ} {ds ts : List τ} {s s' : σ} :
    History s₀ ps ds s → Serve s ts s' → History s₀ ps (ds++ts) s'

variable {Append Serve}

/-- Conservation: what was produced is what was served followed by what the state
still holds. -/
theorem History.conserves (Holds : σ → List κ → Prop) {seen : τ → ι} {sent : κ → ι}
    (happend : ∀ s ks s' q, Holds s q → Append s ks s' → Holds s' (q++ks))
    (hserve : ∀ s ts s' q, Holds s q → Serve s ts s' →
      ∃ n, ts.map seen = (q.take n).map sent ∧ Holds s' (q.drop n))
    {s₀ s : σ} {ps : List κ} {ds : List τ} (h₀ : Holds s₀ [])
    (h : History Append Serve s₀ ps ds s) :
    ∃ done q, ps = done++q ∧ ds.map seen = done.map sent ∧ Holds s q := by
  induction h with
  | start => exact ⟨[], [], rfl, rfl, h₀⟩
  | append _ ha ih =>
    obtain ⟨done, q, rfl, hd, hq⟩ := ih
    exact ⟨done, q++_, by simp, hd, happend _ _ _ q hq ha⟩
  | serve _ hs ih =>
    obtain ⟨done, q, rfl, hd, hq⟩ := ih
    obtain ⟨n, hn, hq'⟩ := hserve _ _ _ q hq hs
    refine ⟨done++q.take n, q.drop n, ?_, ?_, hq'⟩
    · rw [List.append_assoc, List.take_append_drop]
    · rw [List.map_append, List.map_append, hd, hn]

end History

section Layout
variable (bytes : κ → List UInt8) (view : Nat → UInt8)

/-- The encodings of the items lie back to back from counter `c` on. `view` is
what a ring shows at an absolute counter. -/
def Laid (c : Nat) (ks : List κ) : Prop :=
  read view c (ks.flatMap bytes).length = ks.flatMap bytes

variable {bytes view}

theorem read_append_iff {c : Nat} {u v : List UInt8} :
    read view c (u++v).length = u++v ↔
      read view c u.length = u ∧ read view (c+u.length) v.length = v := by
  rw [List.length_append, read_add]
  constructor
  · intro h
    exact List.append_inj h (by simp)
  · rintro ⟨hu, hv⟩
    rw [hu, hv]

theorem laid_cons {c : Nat} {k : κ} {ks : List κ} : Laid bytes view c (k::ks) ↔
    read view c (bytes k).length = bytes k ∧ Laid bytes view (c+(bytes k).length) ks :=
  read_append_iff

theorem laid_append {c : Nat} {ks ls : List κ} : Laid bytes view c (ks++ls) ↔
    Laid bytes view c ks ∧ Laid bytes view (c+(ks.flatMap bytes).length) ls := by
  unfold Laid
  rw [List.flatMap_append]
  exact read_append_iff

theorem laid_congr {view' : Nat → UInt8} {c c' : Nat} {ks : List κ}
    (h : ∀ i < (ks.flatMap bytes).length, view' (c'+i) = view (c+i)) (hl : Laid bytes view c ks) :
    Laid bytes view' c' ks := by
  unfold Laid at hl ⊢
  rw [← hl]
  apply List.ext_getElem (by simp)
  intro i hi hi'
  rw [read_getElem, read_getElem]
  exact h i (by simpa using hi)

end Layout

end Lagfx.Fifo
