import Lagfx.DispatchRuns

/-! The edges between blocks: the stores of the PHIs, and the block that a terminator
chooses. -/
namespace Lagfx.Spirv
open Ssa
variable {V Mem : Type}

namespace Dispatch
variable {d : Dispatch} {bbs : List AirBb} {start β ι n k v : Nat} {fin c c' : DispatchCtx}
variable {num : Nat → V} {bool : Bool → V} {γ : Ghost V Mem} {st t : State V Mem}
variable {T : Target V Mem} {A : AirInterp V Mem}

/-- A PHI of the body. -/
def IsPhi (bbs : List AirBb) (p : Nat × XlateInst) : Prop :=
  p.2.code = .phi ∧ ∃ b ∈ bbs, p ∈ b.body

/-- The PHIs that an edge to block `succ` has to set. -/
def edgePhis (bbs : List AirBb) (succ : Nat) : List (Nat × XlateInst) :=
  match bbs[succ]? with
  | none => []
  | some b => b.phis

theorem isPhi_of_mem_edgePhis (succ : Nat) (p : Nat × XlateInst) (h : p ∈ edgePhis bbs succ) :
    IsPhi bbs p := by
  rw [edgePhis] at h
  split at h
  · cases h
  · next b hb =>
    exact ⟨by simpa using List.mem_takeWhile_imp h, b, List.mem_of_getElem? hb,
      List.takeWhile_subset _ h⟩

/-- More PHIs in due, where their variables hold. -/
theorem At.due {due : List (Nat × XlateInst)} (hst : At d bbs ι fin num c n γ st)
    (hdue : ∀ p ∈ due, ∀ x, γ.phi p = some x → st.io (fin.phiVar p.1) = x) :
    At d bbs ι fin num c n { γ with due := due } st where
  direct := hst.direct
  spilled := hst.spilled
  consts := hst.consts
  mem := hst.mem
  phis := hdue
  iter := hst.iter

theorem At.due_subset {due : List (Nat × XlateInst)} (hst : At d bbs ι fin num c n γ st)
    (hsub : due ⊆ γ.due) : At d bbs ι fin num c n { γ with due := due } st :=
  hst.due fun p hp => hst.phis p (hsub hp)

/-- A store to the variable of a PHI. -/
theorem At.putPhi (w : World d bbs start β ι fin T) (hst : At d bbs ι fin num c n γ st)
    {p : Nat × XlateInst} {y : V} (hvar : fin.phiVar p.1 ≠ 0)
    (huniq : ∀ q ∈ γ.due, q.1 = p.1 → q = p) (hy : ∀ x, γ.phi p = some x → y = x) :
    At d bbs ι fin num c n { γ with due := p :: γ.due } (st.put (fin.phiVar p.1) y) where
  direct := hst.direct
  spilled := by
    intro u x hu hx
    rw [State.put_ne]
    · exact hst.spilled u x hu hx
    · intro heq
      cases w.final.inj (.phi p.1) (.spill u) hvar heq.symm
  consts := hst.consts
  mem := hst.mem
  phis := by
    intro q hq x hx
    by_cases hqp : q = p
    · rw [hqp] at hx ⊢
      rw [State.put_self]
      exact hy x hx
    · have hq := (List.mem_cons.mp hq).resolve_left hqp
      rw [State.put_ne]
      · exact hst.phis q hq x hx
      · intro heq
        have := w.final.inj (.phi p.1) (.phi q.1) hvar heq.symm
        injection this with hpq
        exact hqp (huniq q hq hpq.symm)
  iter := by
    rw [State.put_ne]
    · exact hst.iter
    · intro heq
      cases w.final.inj (.phi p.1) .iter hvar heq.symm

/-- A store to the variable of the next block. -/
theorem At.putBlock (w : World d bbs start β ι fin T) (hst : At d bbs ι fin num c n γ st) (y : V)
    (hβ : β ≠ 0) : At d bbs ι fin num c n γ (st.put β y) where
  direct := hst.direct
  spilled := by
    intro u x hu hx
    rw [State.put_ne]
    · exact hst.spilled u x hu hx
    · intro heq
      cases w.final.inj .block (.spill u) hβ heq.symm
  consts := hst.consts
  mem := hst.mem
  phis := by
    intro q hq x hx
    rw [State.put_ne]
    · exact hst.phis q hq x hx
    · intro heq
      cases w.final.inj .block (.phi q.1) hβ heq.symm
  iter := by
    rw [State.put_ne]
    · exact hst.iter
    · intro heq
      cases w.final.inj .block .iter hβ heq.symm

/-- An id of its own for an intermediate value. -/
theorem At.setFresh (w : World d bbs start β ι fin T) (hst : At d bbs ι fin num c n γ st)
    (hok : c.Ok start β ι) (y : V) :
    Undisturbed d bbs ι fin c c.fresh num n γ st (st.set c.nextId y) where
  at_ := hst.frame c.fresh hok w.const (fun _ hy => st.set_lt _ hy) rfl rfl (fun _ _ _ => rfl)
    hst.mem
  low := fun _ hy => st.set_lt _ hy

/-- The PHIs of an edge are to take the values of the source. -/
structure Edge (bbs : List AirBb) (c : DispatchCtx) (γ : Ghost V Mem) : Prop where
  phi : ∀ p, γ.phi p = onEdge c.curBb γ.env p
  due : ∀ p ∈ γ.due, IsPhi bbs p
  uniq : ∀ p q, IsPhi bbs p → IsPhi bbs q → p.1 = q.1 → p = q

theorem Edge.more {due : List (Nat × XlateInst)} (h : Edge bbs c γ)
    (hdue : ∀ p ∈ due, IsPhi bbs p) : Edge bbs c { γ with due := due ++ γ.due } where
  phi := h.phi
  due := by
    intro p hp
    rcases List.mem_append.mp hp with hp | hp
    · exact hdue p hp
    · exact h.due p hp
  uniq := h.uniq

theorem Edge.extends (h : Edge bbs c γ) (hg : c.Extends c') : Edge bbs c' γ where
  phi := by
    rw [hg.cur]
    exact h.phi
  due := h.due
  uniq := h.uniq

theorem storeIncoming_runs (w : World d bbs start β ι fin T) {p : Nat × XlateInst} {ty : Nat}
    (h : d.Reached bbs start β ι n k c) (hv : d.Reads bbs c n v)
    (hvar : fin.phiVar p.1 ≠ 0) (hmem : fin.phiVar p.1 ∈ T.iface)
    (huniq : ∀ q ∈ γ.due, q.1 = p.1 → q = p) (hphi : γ.phi p = γ.env v)
    (hg : (d.storeIncoming bbs c (fin.phiVar p.1) ty v).2.Grows fin)
    (hst : At d bbs ι fin num c n γ st) :
    Lands T.exec (d.storeIncoming bbs c (fin.phiVar p.1) ty v).1
      (Undisturbed d bbs ι fin c (d.storeIncoming bbs c (fin.phiVar p.1) ty v).2 num n
        { γ with due := p :: γ.due } st) st := by
  obtain ⟨hl, hplain⟩ := resolve_leaves h hv
  have hruns := fun hgr => resolve_runs (T := T) w h hv hgr hst
  simp only [storeIncoming] at hg ⊢
  generalize d.resolve bbs c v = r at *
  by_cases hval : r.val = 0
  · rw [if_neg (not_not.mpr hval)] at hg ⊢
    generalize (if r.ctx.phiType v ≠ 0 then r.ctx.phiType v else ty) = lty at *
    -- a value the source does not have here
    have hnone : ∀ t : State V Mem, (∀ x, γ.env v = some x → r.val ≠ 0 ∧ t.env r.val = x) →
        γ.phi p = none := by
      intro t ht
      rw [hphi]
      cases henv : γ.env v with
      | none => rfl
      | some x => exact absurd hval (ht x henv).1
    by_cases hload : v < d.ctx.valueIdCapacity ∧ r.ctx.phiVar v ≠ 0 ∧ lty = ty
    · rw [if_pos hload] at hg ⊢
      have hgr : r.ctx.Grows fin := DispatchCtx.grows_fresh.trans hg
      refine (hruns hgr).append ?_
      rintro t ⟨hun, hx⟩
      have hfresh := hun.at_.setFresh w hl.reached.ok (t.io (r.ctx.phiVar v))
      refine .cons (T.exec_load (w.phiVar_mem hl.reached hgr hload.2.1) t) ?_
      refine lands_single (T.exec_store hmem _) ⟨?_, ?_⟩
      · refine hfresh.at_.putPhi w hvar huniq ?_
        intro x hx'
        rw [hnone t hx] at hx'
        cases hx'
      · intro y hy
        exact (hun.trans hl.ext.toGrows hfresh).low y hy
    · rw [if_neg hload] at hg ⊢
      refine (hruns hg).imp ?_
      rintro t ⟨hun, hx⟩
      refine ⟨hun.at_.due ?_, hun.low⟩
      intro q hq x hqx
      rcases List.mem_cons.mp hq with rfl | hq
      · rw [hnone t hx] at hqx
        cases hqx
      · exact hun.at_.phis q hq x hqx
  · rw [if_pos hval] at hg ⊢
    refine (hruns hg).append ?_
    rintro t ⟨hun, hx⟩
    refine lands_single (T.exec_store hmem t) ⟨?_, hun.low⟩
    refine hun.at_.putPhi w hvar huniq ?_
    intro x hx'
    rw [hphi] at hx'
    exact (hx x hx').2

/-- A PHI with no value on this edge. -/
theorem At.dueNone (hst : At d bbs ι fin num c n γ st) {p : Nat × XlateInst}
    (hp : γ.phi p = none) : At d bbs ι fin num c n { γ with due := p :: γ.due } st := by
  refine hst.due ?_
  intro q hq x hx
  rcases List.mem_cons.mp hq with rfl | hq
  · rw [hp] at hx
    cases hx
  · exact hst.phis q hq x hx

theorem phiIncoming_short {p : Nat × XlateInst} (h : p.2.ops.length < 3) (pred : Nat) :
    phiIncoming p pred = none := by
  rw [phiIncoming, if_pos h]

/-- What a PHI of the successor asks of the context. -/
def PhiReads (d : Dispatch) (bbs : List AirBb) (c : DispatchCtx) (n : Nat)
    (p : Nat × XlateInst) : Prop :=
  p.1 < d.ctx.valueIdCapacity ∧ ∀ v, phiIncoming p c.curBb = some v → d.Reads bbs c n v

theorem storePhi_runs (w : World d bbs start β ι fin T) {p : Nat × XlateInst}
    (h : d.Reached bbs start β ι n k c) (hp : PhiReads d bbs c n p) (he : Edge bbs c γ)
    (hphi : IsPhi bbs p) (hg : (d.storePhi bbs c p).2.Grows fin)
    (hst : At d bbs ι fin num c n γ st) :
    Lands T.exec (d.storePhi bbs c p).1 (Undisturbed d bbs ι fin c (d.storePhi bbs c p).2 num n
      { γ with due := p :: γ.due } st) st := by
  obtain ⟨hl, hv, hvar, hbound⟩ := dispatchPhiVar_leaves h (d.airTypeId (opAt p.2 0)) hp.1
  rw [storePhi] at hg ⊢
  by_cases hlen : p.2.ops.length < 3
  · rw [if_pos hlen]
    have hnone : γ.phi p = none := by
      rw [he.phi, onEdge, phiIncoming_short hlen]
      rfl
    exact lands_nil ⟨hst.dueNone hnone, fun _ _ => rfl⟩
  · rw [if_neg hlen] at hg ⊢
    simp only [if_neg hv] at hg ⊢
    generalize d.dispatchPhiVar c p.1 (d.airTypeId (opAt p.2 0)) = r at *
    have hat := hst.sameBound hbound hl.ext.cur
    cases hin : phiIncoming p c.curBb with
    | none =>
      have hnone : γ.phi p = none := by
        rw [he.phi, onEdge, hin]
        rfl
      exact lands_nil ⟨hat.dueNone hnone, fun _ _ => rfl⟩
    | some inval =>
      rw [hin] at hg
      simp only at hg ⊢
      have hread := (hp.2 inval hin).extends hl.ext
      have hgr := (storeIncoming_leaves hl.reached hread).ext.toGrows.trans hg
      have hfin : fin.phiVar p.1 = r.1 := by
        rw [hgr.phiVar p.1 (by rw [hvar]; exact hv), hvar]
      have hmem : r.1 ∈ T.iface := by
        rw [← hvar]
        exact w.phiVar_mem hl.reached hgr (by rw [hvar]; exact hv)
      rw [← hfin] at hg hv hmem ⊢
      refine (storeIncoming_runs w hl.reached hread hv hmem ?_ ?_ hg hat).imp ?_
      · exact fun q hq hqp => he.uniq q p (he.due q hq) hphi hqp
      · rw [he.phi, onEdge, hin]
        rfl
      · intro t ht
        exact ⟨ht.at_, fun y hy => ht.low y (hy.trans_le hl.ext.next)⟩

theorem storePhis_runs (w : World d bbs start β ι fin T) {ps : List (Nat × XlateInst)}
    (h : d.Reached bbs start β ι n k c) (hps : ∀ p ∈ ps, PhiReads d bbs c n p)
    (he : Edge bbs c γ) (hphi : ∀ p ∈ ps, IsPhi bbs p)
    (hg : (d.storePhis bbs c ps).2.Grows fin) (hst : At d bbs ι fin num c n γ st) :
    Lands T.exec (d.storePhis bbs c ps).1 (Undisturbed d bbs ι fin c (d.storePhis bbs c ps).2 num n
      { γ with due := ps ++ γ.due } st) st := by
  induction ps generalizing c γ st with
  | nil => exact lands_nil ⟨hst, fun _ _ => rfl⟩
  | cons p ps ih =>
    have hp := hps p List.mem_cons_self
    have hl := storePhi_leaves h hp.1 hp.2
    have hps' : ∀ q ∈ ps, PhiReads d bbs (d.storePhi bbs c p).2 n q := by
      intro q hq
      obtain ⟨hcap, hin⟩ := hps q (List.mem_cons_of_mem p hq)
      refine ⟨hcap, fun v hv => ?_⟩
      rw [hl.ext.cur] at hv
      exact (hin v hv).extends hl.ext
    have hpmem := hphi p List.mem_cons_self
    have hphi' : ∀ q ∈ ps, IsPhi bbs q := fun q hq => hphi q (List.mem_cons_of_mem p hq)
    have hl' := storePhis_leaves hl.reached hps'
    rw [storePhis] at hg ⊢
    refine (storePhi_runs w h hp he hpmem (hl'.ext.toGrows.trans hg) hst).append ?_
    intro t ht
    have he' : Edge bbs (d.storePhi bbs c p).2 { γ with due := [p] ++ γ.due } :=
      (he.more (by simpa using hpmem)).extends hl.ext
    refine (@ih _ { γ with due := p :: γ.due } _ hl.reached hps' he' hphi' hg ht.at_).imp ?_
    intro u hu
    refine ⟨hu.at_.due_subset ?_, (ht.trans hl.ext.toGrows hu).low⟩
    intro q hq
    simp only [List.cons_append, List.mem_cons, List.mem_append] at hq ⊢
    tauto

theorem dispatchStorePhiIncomings_runs (w : World d bbs start β ι fin T) {succ : Nat}
    (h : d.Reached bbs start β ι n k c) (hs : d.EdgeReads bbs c n succ) (he : Edge bbs c γ)
    (hg : (d.dispatchStorePhiIncomings bbs c succ).2.Grows fin)
    (hst : At d bbs ι fin num c n γ st) :
    Lands T.exec (d.dispatchStorePhiIncomings bbs c succ).1
      (Undisturbed d bbs ι fin c (d.dispatchStorePhiIncomings bbs c succ).2 num n
        { γ with due := edgePhis bbs succ ++ γ.due } st) st := by
  rw [dispatchStorePhiIncomings] at hg ⊢
  have hphi : ∀ p ∈ edgePhis bbs succ, IsPhi bbs p := isPhi_of_mem_edgePhis succ
  unfold edgePhis at hphi ⊢
  cases hb : bbs[succ]? with
  | none => exact lands_nil ⟨hst, fun _ _ => rfl⟩
  | some b =>
    rw [hb] at hg hphi
    exact storePhis_runs w h (hs b hb) he hphi hg hst

theorem storeOther_runs (w : World d bbs start β ι fin T) {first succ : Nat}
    (h : d.Reached bbs start β ι n k c) (hs : d.EdgeReads bbs c n succ) (he : Edge bbs c γ)
    (hfirst : edgePhis bbs first ⊆ γ.due) (hg : (d.storeOther bbs c first succ).2.Grows fin)
    (hst : At d bbs ι fin num c n γ st) :
    Lands T.exec (d.storeOther bbs c first succ).1
      (Undisturbed d bbs ι fin c (d.storeOther bbs c first succ).2 num n
        { γ with due := edgePhis bbs succ ++ γ.due } st) st := by
  rw [storeOther] at hg ⊢
  by_cases hsf : succ = first
  · rw [if_neg (not_not.mpr hsf), hsf]
    refine lands_nil ⟨hst.due_subset ?_, fun _ _ => rfl⟩
    exact List.append_subset.mpr ⟨hfirst, List.Subset.refl _⟩
  · rw [if_pos hsf] at hg ⊢
    exact dispatchStorePhiIncomings_runs w h hs he hg hst

/-- Both edges of a conditional branch. -/
theorem bothEdges_runs (w : World d bbs start β ι fin T) {x y : Nat}
    (h : d.Reached bbs start β ι n k c) (hx : d.EdgeReads bbs c n x)
    (hy : d.EdgeReads bbs c n y) (he : Edge bbs c γ)
    (hg : (d.storeOther bbs (d.dispatchStorePhiIncomings bbs c x).2 x y).2.Grows fin)
    (hst : At d bbs ι fin num c n γ st) :
    Lands T.exec ((d.dispatchStorePhiIncomings bbs c x).1 ++
        (d.storeOther bbs (d.dispatchStorePhiIncomings bbs c x).2 x y).1)
      (Undisturbed d bbs ι fin c (d.storeOther bbs (d.dispatchStorePhiIncomings bbs c x).2 x y).2
        num n { γ with due := edgePhis bbs y ++ (edgePhis bbs x ++ γ.due) } st) st := by
  have hl := dispatchStorePhiIncomings_leaves h hx
  have hy' := hy.extends hl.ext
  have hl' := storeOther_leaves x hl.reached hy'
  refine (dispatchStorePhiIncomings_runs w h hx he (hl'.ext.toGrows.trans hg) hst).append ?_
  intro t ht
  have he' := (he.more (isPhi_of_mem_edgePhis x)).extends hl.ext
  refine (storeOther_runs w hl.reached hy' he' (List.subset_append_left _ _) hg ht.at_).imp ?_
  intro u hu
  exact ht.trans hl.ext.toGrows hu

theorem resolveOrUndef_runs (w : World d bbs start β ι fin T) {ty : Nat} {x : V}
    (h : d.Reached bbs start β ι n k c) (hv : d.Reads bbs c n v)
    (hg : (d.resolveOrUndef bbs c v ty).ctx.Grows fin) (hst : At d bbs ι fin num c n γ st)
    (hx : γ.env v = some x) :
    Lands T.exec (d.resolveOrUndef bbs c v ty).code (fun t =>
      Undisturbed d bbs ι fin c (d.resolveOrUndef bbs c v ty).ctx num n γ st t ∧
      (d.resolveOrUndef bbs c v ty).val < (d.resolveOrUndef bbs c v ty).ctx.nextId ∧
      t.env (d.resolveOrUndef bbs c v ty).val = x) st := by
  obtain ⟨-, hplain⟩ := resolve_leaves h hv
  refine (resolve_runs w h hv hg hst).imp ?_
  rintro t ⟨hun, hval⟩
  obtain ⟨hne, henv⟩ := hval x hx
  simp only [resolveOrUndef, if_pos hne]
  exact ⟨hun, hplain.1, henv⟩

/- The choice of the next block. -/

/-- The last case that matches, `j` when none does. -/
def lastCase (A : AirInterp V Mem) (x : V) (j : Nat) (ks : List (Nat × Nat)) (vals : List V) :
    Nat :=
  ((ks.zip vals).filter fun k => A.same x k.2).foldl (fun _ k => k.1.2) j

theorem lastCase_cons (A : AirInterp V Mem) (x y : V) (j : Nat) (k : Nat × Nat)
    (ks : List (Nat × Nat)) (vals : List V) :
    lastCase A x j (k :: ks) (y :: vals) =
      lastCase A x (if A.same x y then k.2 else j) ks vals := by
  rw [lastCase, List.zip_cons_cons, List.filter_cons]
  split <;> rfl

/-- A SWITCH with one match at most. -/
theorem lastCase_of_selectCase {env : Nat → Option V} {x : V} {defbb j : Nat}
    {ks : List (Nat × Nat)} (h : selectCase A env x defbb ks = some j) :
    ∃ vals, readAll env (ks.map (·.1)) = some vals ∧ lastCase A x defbb ks vals = j := by
  rw [selectCase] at h
  split at h
  · cases h
  · next vals hvals =>
    refine ⟨vals, hvals, ?_⟩
    rw [lastCase]
    split at h
    · next hf =>
      rw [hf]
      exact Option.some.inj h
    · next hf =>
      rw [hf]
      exact Option.some.inj h
    · cases h

theorem lowerCases_runs (w : World d bbs start β ι fin T) (hctl : T.Control A num bool)
    {ks : List (Nat × Nat)} {defbb cond next j : Nat} {x : V} {vals : List V}
    (h : d.Reached bbs start β ι n k c)
    (hks : ∀ y ∈ ks, d.Reads bbs c n y.1 ∧ d.EdgeReads bbs c n y.2)
    (hlen : ∀ y ∈ ks, y.2 < bbs.length) (he : Edge bbs c γ) (hdef : edgePhis bbs defbb ⊆ γ.due)
    (hg : (d.lowerCases bbs defbb cond ks c next).ctx.Grows fin)
    (hst : At d bbs ι fin num c n γ st) (hcond : cond < c.nextId) (hx : st.env cond = x)
    (hnext : next < c.nextId) (hj : st.env next = num j)
    (hvals : readAll γ.env (ks.map (·.1)) = some vals) :
    Lands T.exec (d.lowerCases bbs defbb cond ks c next).code (fun t =>
      Undisturbed d bbs ι fin c (d.lowerCases bbs defbb cond ks c next).ctx num n
        { γ with due := (ks.flatMap fun y => edgePhis bbs y.2) ++ γ.due } st t ∧
      t.env (d.lowerCases bbs defbb cond ks c next).val = num (lastCase A x j ks vals)) st := by
  induction ks generalizing c γ st next j vals with
  | nil => exact lands_nil ⟨⟨hst, fun _ _ => rfl⟩, hj⟩
  | cons y ks ih =>
    obtain ⟨x₁, hx₁, hvals⟩ := Option.bind_eq_some_iff.mp hvals
    obtain ⟨xs, hxs, rfl⟩ := Option.map_eq_some_iff.mp hvals
    obtain ⟨hy, hey⟩ := hks y List.mem_cons_self
    have hl : d.Leaves bbs start β ι c (d.storeOther bbs c defbb y.2).2 n k :=
      storeOther_leaves defbb h hey
    have hread := hy.extends hl.ext
    obtain ⟨hl', hplain⟩ := resolve_leaves hl.reached hread
    have hboth := hl.trans hl'
    have hlater : ∀ c', c.Extends c' →
        ∀ z ∈ ks, d.Reads bbs c' n z.1 ∧ d.EdgeReads bbs c' n z.2 := by
      intro c' hg z hz
      obtain ⟨hz, he⟩ := hks z (List.mem_cons_of_mem y hz)
      exact ⟨hz.extends hg, he.extends hg⟩
    rw [lowerCases] at hg ⊢
    have hstore := fun hgr => storeOther_runs (T := T) w h hey he hdef hgr hst
    have hresolve := fun hgr (t : State V Mem) (γ : Ghost V Mem)
        (ht : At d bbs ι fin num _ n γ t) => resolve_runs (T := T) w hl.reached hread hgr ht
    generalize d.storeOther bbs c defbb y.2 = s at *
    generalize d.resolve bbs s.2 y.1 = r at *
    -- after the PHIs and the case value
    have hfirst : r.ctx.Grows fin → Lands T.exec (s.1 ++ r.code) (fun t =>
        Undisturbed d bbs ι fin c r.ctx num n { γ with due := edgePhis bbs y.2 ++ γ.due } st t ∧
        r.val ≠ 0 ∧ t.env r.val = x₁) st := by
      intro hgr
      refine (hstore (hl'.ext.toGrows.trans hgr)).append ?_
      intro t ht
      refine (hresolve hgr t _ ht.at_).imp ?_
      intro u hu
      exact ⟨ht.trans hl.ext.toGrows hu.1, hu.2 x₁ hx₁⟩
    have hmore : Edge bbs c { γ with due := edgePhis bbs y.2 ++ γ.due } :=
      he.more (isPhi_of_mem_edgePhis y.2)
    by_cases hval : r.val = 0
    · simp only [if_pos hval] at hg ⊢
      have hrest := lowerCases_leaves defbb cond next hl'.reached
        (hlater _ hboth.ext)
      refine (hfirst (hrest.ext.toGrows.trans hg)).append ?_
      intro t ht
      exact absurd hval ht.2.1
    · simp only [if_neg hval] at hg ⊢
      have hfresh : d.Leaves bbs start β ι c r.ctx.fresh.fresh n k :=
        (hboth.trans ⟨DispatchCtx.extends_fresh, hl'.reached.fresh⟩).trans
          ⟨DispatchCtx.extends_fresh, hl'.reached.fresh.fresh⟩
      have hrest := lowerCases_leaves defbb cond (r.ctx.nextId+1)
        hfresh.reached (hlater _ hfresh.ext)
      have hgr : r.ctx.fresh.fresh.Grows fin := hrest.ext.toGrows.trans hg
      have hgr' : r.ctx.Grows fin :=
        (DispatchCtx.grows_fresh.trans DispatchCtx.grows_fresh).trans hgr
      have hle : c.nextId ≤ r.ctx.nextId := hboth.ext.next
      rw [List.append_assoc]
      refine (hfirst hgr').append ?_
      rintro t ⟨hun, -, hx₁'⟩
      refine .cons (hctl.equal _ _ _ _ t) ?_
      have hcond' : t.env cond = x := (hun.low cond hcond).trans hx
      have hnext' : t.env next = num j := (hun.low next hnext).trans hj
      have heq := hun.at_.setFresh w hl'.reached.ok (bool (A.same (t.env cond) (t.env r.val)))
      generalize ht₁ : t.set r.ctx.nextId (bool (A.same (t.env cond) (t.env r.val))) = t₁ at *
      refine .cons (hctl.select _ _ _ _ _ t₁) ?_
      have hsel := heq.at_.setFresh w hl'.reached.fresh.ok
        (if A.truth (t₁.env r.ctx.nextId) then t₁.env (d.const y.2) else t₁.env next)
      have htruth : A.truth (t₁.env r.ctx.nextId) = A.same x x₁ := by
        rw [← ht₁, State.set_self, hctl.truth, hcond', hx₁']
      have hout : (t₁.set (r.ctx.nextId+1) (if A.truth (t₁.env r.ctx.nextId) then
          t₁.env (d.const y.2) else t₁.env next)).env (r.ctx.nextId+1) =
          num (if A.same x x₁ then y.2 else j) := by
        rw [State.set_self, htruth, heq.at_.consts _ (.inl (hlen y List.mem_cons_self)),
          heq.low next (hnext.trans_le hle), hnext']
        split <;> rfl
      have hun₂ := (hun.trans hboth.ext.toGrows heq).trans
        (hboth.ext.toGrows.trans DispatchCtx.grows_fresh) hsel
      have hcond₂ := (hun₂.low cond hcond).trans hx
      refine (@ih _ { γ with due := edgePhis bbs y.2 ++ γ.due } _ _ _ _ hfresh.reached
        (hlater _ hfresh.ext) (fun z hz => hlen z (List.mem_cons_of_mem y hz))
        (hmore.extends hfresh.ext)
        (fun p hp => List.mem_append_right _ (hdef hp)) hg hsel.at_ (hcond.trans_le hfresh.ext.next)
        hcond₂ (Nat.lt_succ_self _) hout hxs).imp ?_
      rintro u ⟨hu, hlast⟩
      rw [lastCase_cons]
      refine ⟨⟨hu.at_.due_subset ?_, (hun₂.trans hfresh.ext.toGrows hu).low⟩, hlast⟩
      intro p hp
      simp only [List.flatMap_cons, List.mem_append] at hp ⊢
      tauto

theorem lastCase_mem (A : AirInterp V Mem) (x : V) (j : Nat) (ks : List (Nat × Nat))
    (vals : List V) : lastCase A x j ks vals = j ∨ ∃ y ∈ ks, lastCase A x j ks vals = y.2 := by
  induction ks generalizing j vals with
  | nil => exact .inl rfl
  | cons y ks ih =>
    cases vals with
    | nil => exact .inl rfl
    | cons z vals =>
      rw [lastCase_cons]
      rcases ih (if A.same x z then y.2 else j) vals with h | ⟨y', hy', h⟩
      · split at h
        · next hs =>
          rw [if_pos hs]
          exact .inr ⟨y, List.mem_cons_self, h⟩
        · next hs =>
          rw [if_neg hs]
          exact .inl h
      · exact .inr ⟨y', List.mem_cons_of_mem y hy', h⟩

/-- Where a terminator has run: the next block is chosen, and its PHIs are set. -/
structure Chosen (d : Dispatch) (bbs : List AirBb) (β ι : Nat) (fin c c' : DispatchCtx)
    (num : Nat → V) (n j : Nat) (γ : Ghost V Mem) (s t : State V Mem) : Prop where
  run : Undisturbed d bbs ι fin c c' num n { γ with due := edgePhis bbs j } s t
  next : t.io β = num j

/-- The store of the choice and the jump. -/
theorem choose_runs (w : World d bbs start β ι fin T) (hctl : T.Control A num bool) (hβ : β ≠ 0)
    (hmem : β ∈ T.iface) {id jump j : Nat} {due : List (Nat × XlateInst)}
    (hid : t.env id = num j) (hdue : edgePhis bbs j ⊆ due)
    (hrun : Undisturbed d bbs ι fin c c' num n { γ with due := due } st t) :
    Jumps T.exec [opStore β id, opBranch jump] jump
      (Chosen d bbs β ι fin c c' num n j γ st) t := by
  refine .cons (T.exec_store hmem t) (jumps_single (hctl.branch jump _) ⟨⟨?_, ?_⟩, ?_⟩)
  · exact (hrun.at_.putBlock w _ hβ).due_subset hdue
  · exact hrun.low
  · rw [hid]
    exact State.put_self _ _ _

theorem dispatchLowerTerminator_runs (w : World d bbs start β ι fin T)
    (hctl : T.Control A num bool) (hβ : β ≠ 0) (hmem : β ∈ T.iface) {p : Nat × XlateInst}
    {jump j : Nat} (h : d.Reached bbs start β ι p.1 p.1 c) (ht : d.TermOk bbs c.curBb p)
    (hnum : ∀ b ∈ bbs, ∀ q ∈ b.body, d.produces q = true → q.1 < d.ctx.valueIdCapacity)
    (hn : p.1 < 2^32) (he : Edge bbs c γ)
    (hg : (d.dispatchLowerTerminator bbs c p β jump).2.Grows fin)
    (hst : At d bbs ι fin num c p.1 γ st) (hnext : airNext A p γ.env = some j) :
    Jumps T.exec (d.dispatchLowerTerminator bbs c p β jump).1 jump
      (Chosen d bbs β ι fin c (d.dispatchLowerTerminator bbs c p β jump).2 num p.1 j γ st) st := by
  have hedge : ∀ s ∈ successors p.2, d.EdgeReads bbs c p.1 s := fun s hs => h.edge rfl ht hnum hs
  have huses : ∀ s ∈ successors p.2, UsesConst bbs s := fun s hs => .inl (ht.targets s hs).2
  rw [dispatchLowerTerminator] at hg ⊢
  rw [airNext] at hnext
  cases hc : p.2.code with
  | br =>
    simp only [hc] at hg hnext ⊢
    by_cases h1 : p.2.ops.length = 1
    · rw [if_pos h1] at hg hnext ⊢
      cases hnext
      have hsucc : opAt p.2 0 ∈ successors p.2 := by simp [successors, hc, h1]
      have hs := hedge _ hsucc
      refine (dispatchStorePhiIncomings_runs w h hs he hg hst).jumps ?_
      intro t hun
      exact choose_runs w hctl hβ hmem (hun.at_.consts _ (huses _ hsucc))
        (List.subset_append_left _ _) hun
    · by_cases h3 : 3 ≤ p.2.ops.length
      · rw [if_neg h1, if_pos h3] at hg hnext ⊢
        obtain ⟨x, hx, hj⟩ := Option.map_eq_some_iff.mp hnext
        rw [llvmOperand_eq (ht.cond hc h3).2.1 hn] at hx
        have hsucc : ∀ s, s = opAt p.2 0 ∨ s = opAt p.2 1 → s ∈ successors p.2 := by
          simp [successors, hc, h1, h3]
        have hs := hedge _ (hsucc _ (.inl rfl))
        have hs' := hedge _ (hsucc _ (.inr rfl))
        have hread := h.reads (ht.cond hc h3).resolve
        have hl := dispatchStorePhiIncomings_leaves h hs
        have hl' := hl.trans (storeOther_leaves (opAt p.2 0) hl.reached
          (hs'.extends hl.ext))
        have hread' := hread.extends hl'.ext
        obtain ⟨hr₀, -⟩ := resolve_leaves hl'.reached hread'
        have hread₂ := hread'.extends hr₀.ext
        have hr := resolveOrUndef_leaves d.boolId hr₀.reached hread₂
        have hfin : c.Extends _ := (hl'.trans (hr₀.trans hr)).ext
        have hgr := DispatchCtx.grows_fresh.trans hg
        have hgr₀ := hr.ext.toGrows.trans hgr
        have hgl := hr₀.ext.toGrows.trans hgr₀
        have hedges := bothEdges_runs w h hs hs' he hgl hst
        simp only [List.append_assoc]
        rw [← List.append_assoc]
        refine hedges.jumps ?_
        intro t₁ h₁
        refine (resolve_runs w hl'.reached hread' hgr₀ h₁.at_).jumps ?_
        rintro t₂ ⟨h₂, -⟩
        refine (resolveOrUndef_runs w hr₀.reached hread₂ hgr h₂.at_ hx).jumps ?_
        rintro t₃ ⟨h₃, -, hx₃⟩
        refine .cons (hctl.select _ _ _ _ _ t₃) ?_
        have h₄ := h₃.at_.setFresh w hr.reached.ok
          (if A.truth x then num (opAt p.2 0) else num (opAt p.2 1))
        rw [hx₃, h₃.at_.consts _ (huses _ (hsucc _ (.inl rfl))),
          h₃.at_.consts _ (huses _ (hsucc _ (.inr rfl)))]
        refine choose_runs w hctl hβ hmem ?_ ?_ (((h₁.trans hl'.ext.toGrows h₂).trans
          (hl'.trans hr₀).ext.toGrows h₃).trans hfin.toGrows h₄)
        · rw [State.set_self, ← hj]
          split <;> rfl
        · rw [← hj]
          split
          · exact fun q hq => List.mem_append_right _ (List.mem_append_left _ hq)
          · exact List.subset_append_left _ _
      · rw [if_neg h1, if_neg h3] at hnext
        cases hnext
  | switch =>
    simp only [hc] at hg hnext ⊢
    by_cases hlen : p.2.ops.length < 3
    · rw [if_pos hlen] at hnext
      cases hnext
    · rw [if_neg hlen] at hg hnext ⊢
      obtain ⟨x, hx, hsel⟩ := Option.bind_eq_some_iff.mp hnext
      rw [llvmOperand_eq (ht.selector hc).2.1 hn] at hx
      obtain ⟨vals, hvals, hlast⟩ := lastCase_of_selectCase hsel
      have hsucc : opAt p.2 2 ∈ successors p.2 := by simp [successors, hc, hlen]
      have hs := hedge _ hsucc
      have hread := h.reads (ht.selector hc).resolve
      have hl := dispatchStorePhiIncomings_leaves h hs
      have hread' := hread.extends hl.ext
      have hr := resolveOrUndef_leaves (d.airTypeId (opAt p.2 0)) hl.reached hread'
      have hl' := hl.trans hr
      have hks : ∀ y ∈ switchCases p.2, d.Reads bbs _ p.1 y.1 ∧ d.EdgeReads bbs _ p.1 y.2 :=
        fun y hy => ⟨(h.reads (ht.cases y hy hc)).extends hl'.ext,
          (hedge _ (TermOk.case_mem hc hlen hy)).extends hl'.ext⟩
      have hgr := (lowerCases_leaves _ _ _ hl'.reached hks).ext.toGrows.trans hg
      have hgs := hr.ext.toGrows.trans hgr
      have he' := (he.more (isPhi_of_mem_edgePhis (opAt p.2 2))).extends
        hl'.ext
      have hconst := (w.const _ (huses _ hsucc)).trans_le hl'.reached.ok.startLe
      have hdue : edgePhis bbs j ⊆ ((switchCases p.2).flatMap fun y => edgePhis bbs y.2) ++
          (edgePhis bbs (opAt p.2 2) ++ γ.due) := by
        intro q hq
        rw [← hlast] at hq
        rcases lastCase_mem A x (opAt p.2 2) (switchCases p.2) vals with hj | ⟨y, hy, hj⟩
        · rw [hj] at hq
          exact List.mem_append_right _ (List.mem_append_left _ hq)
        · rw [hj] at hq
          exact List.mem_append_left _ (List.mem_flatMap.mpr ⟨y, hy, hq⟩)
      simp only [List.append_assoc]
      refine (dispatchStorePhiIncomings_runs w h hs he hgs hst).jumps ?_
      intro t₁ h₁
      refine (resolveOrUndef_runs w hl.reached hread' hgr h₁.at_ hx).jumps ?_
      rintro t₂ ⟨h₂, hlt, hx₂⟩
      refine (lowerCases_runs w hctl hl'.reached hks
        (fun y hy => (ht.targets y.2 (TermOk.case_mem hc hlen hy)).2) he'
        (List.subset_append_left _ _) hg h₂.at_ hlt hx₂ hconst
        (h₂.at_.consts _ (huses _ hsucc)) hvals).jumps ?_
      rintro t₃ ⟨h₃, hval⟩
      rw [hlast] at hval
      exact choose_runs w hctl hβ hmem hval hdue
        ((h₁.trans hl.ext.toGrows h₂).trans hl'.ext.toGrows h₃)
  | _ =>
    rw [hc] at hnext
    cases hnext

/-- A RET leaves the function with what the source returns. -/
theorem dispatchLowerTerminator_ret (w : World d bbs start β ι fin T) (hem : d.Emits A T)
    {p : Nat × XlateInst} {vals : List V} {jump : Nat} (h : d.Reached bbs start β ι p.1 p.1 c)
    (ht : d.TermOk bbs c.curBb p) (hn : p.1 < 2^32) (hc : p.2.code = .ret)
    (hg : (d.dispatchLowerTerminator bbs c p β jump).2.Grows fin)
    (hst : At d bbs ι fin num c p.1 γ st) (hvals : d.readOperands p γ.env = some vals) :
    ∃ io, runInsns T.exec (d.dispatchLowerTerminator bbs c p β jump).1 st =
      .exit (.returned (A.ret p.2 vals γ.mem).1 (A.ret p.2 vals γ.mem).2 io) := by
  obtain ⟨hl, hplain⟩ := operandIds_leaves h (ht.ret hc)
  have hruns := fun hgr => operandIds_runs (T := T) w h hn (ht.ret hc) hgr hst hvals
  rw [dispatchLowerTerminator, hc] at hg ⊢
  change DispatchCtx.Grows ((d.operandIds bbs c p).ctx.take (d.emit p
    (d.operandIds bbs c p).ctx.nextId (d.operandIds bbs c p).val).width p.1 0) fin at hg
  change ∃ io, runInsns T.exec ((d.operandIds bbs c p).code ++
    (d.emit p (d.operandIds bbs c p).ctx.nextId (d.operandIds bbs c p).val).code) st = _
  generalize d.operandIds bbs c p = r at *
  have htake : r.ctx.Grows (r.ctx.take (d.emit p r.ctx.nextId r.val).width p.1 0) :=
    DispatchCtx.grows_take _ (.inl rfl)
  refine (hruns (htake.trans hg)).rest (P := fun o => ∃ io, o =
    .exit (.returned (A.ret p.2 vals γ.mem).1 (A.ret p.2 vals γ.mem).2 io)) ?_
  rintro t ⟨hun, hne, hmap⟩
  have hsuit := w.operands hl.reached.ok hg (htake.trans hg) hplain hne
  rw [hem.ret p r.ctx.nextId r.val t hc hsuit, hmap, hun.at_.mem]
  exact ⟨t.io, rfl⟩

end Dispatch

end Lagfx.Spirv
