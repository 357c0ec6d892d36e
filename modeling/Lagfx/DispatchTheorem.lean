import Lagfx.DispatchLoop

/-! The lowering keeps what a body returns, as long as the body does not go through more
blocks than the loop counts. -/
namespace Lagfx.Spirv
open Ssa
variable {V Mem : Type}

namespace Dispatch
variable {d : Dispatch} {bbs : List AirBb} {start β ι n k v m : Nat} {fin c c' c₁ : DispatchCtx}
variable {num : Nat → V} {bool : Bool → V} {γ : Ghost V Mem} {st t : State V Mem}
variable {A : AirInterp V Mem} {l : Labels}

/- The blocks of the function by their labels. -/

/-- `h`: the first id of the header. -/
structure Layout (d : Dispatch) (bbs : List AirBb) (start β ι : Nat) (c₁ fin : DispatchCtx)
    (l : Labels) (h : Nat) (f : Fn) : Prop where
  header : f.blockAt l.header = some (d.headerBlock l h β ι)
  body : f.blockAt l.body = some (bodyBlock l h bbs.length)
  case : ∀ j b, 0 < j → bbs[j]? = some b → ∃ blk, f.blockAt (l.bb j) = some blk ∧
    d.IsCase bbs start β ι c₁ fin l j b blk
  selmerge : f.blockAt l.selmerge = some ⟨l.selmerge, [opBranch l.cont]⟩
  cont : f.blockAt l.cont = some ⟨l.cont, [opBranch l.header]⟩
  exit : f.blockAt l.exit = some ⟨l.exit, d.bail⟩

theorem find?_label_ne {b : Block} {label : Nat} (h : b.label ≠ label) (bs : List Block) :
    (b :: bs).find? (·.label == label) = bs.find? (·.label == label) := by
  rw [List.find?_cons, beq_eq_false_iff_ne.mpr h]

theorem find?_label_self (b : Block) (bs : List Block) :
    (b :: bs).find? (·.label == b.label) = some b := by
  rw [List.find?_cons, beq_self_eq_true]

/-- The labels of the cases are none of the others. -/
theorem find?_cases_none {bs : List AirBb} {β : Nat} {label : Nat} (hk : 0 < k)
    (hlabel : label ≤ l.exit) :
    (d.caseBlocks bbs l β k bs c).1.find? (·.label == label) = none := by
  rw [List.find?_eq_none]
  intro blk hblk
  obtain ⟨j, hj, -, hlab⟩ := caseBlocks_label hblk
  rw [beq_iff_eq, hlab]
  simp only [Labels.bb, Labels.exit] at hlabel ⊢
  omega

theorem layout_of_blocks {f : Fn} {entry h : Nat} {code : List Insn} {rest : List AirBb}
    {c : DispatchCtx} (hentry : entry < l.base)
    (hblocks : f.blocks = ⟨entry, code⟩ :: d.headerBlock l h β ι :: bodyBlock l h bbs.length ::
      ((d.caseBlocks bbs l β 1 rest c).1 ++ d.lastBlocks l))
    (hcase : ∀ j b, 1 ≤ j → bbs[j]? = some b →
      ∃ blk, (d.caseBlocks bbs l β 1 rest c).1.find? (·.label == l.bb j) = some blk ∧
        d.IsCase bbs start β ι c₁ fin l j b blk) :
    d.Layout bbs start β ι c₁ fin l h f := by
  have hentry' : ∀ label, l.base ≤ label → f.blockAt label =
      (d.headerBlock l h β ι :: bodyBlock l h bbs.length ::
        ((d.caseBlocks bbs l β 1 rest c).1 ++ d.lastBlocks l)).find? (·.label == label) := by
    intro label hl
    rw [Fn.blockAt, hblocks]
    exact find?_label_ne (show entry ≠ label by omega) _
  -- a label behind those of the header and the switch is looked up in what follows
  have hlater : ∀ label, l.base+1 < label → f.blockAt label =
      ((d.caseBlocks bbs l β 1 rest c).1 ++ d.lastBlocks l).find? (·.label == label) := by
    intro label hl
    rw [hentry' label (by omega), find?_label_ne (show l.base ≠ label by omega),
      find?_label_ne (show l.base+1 ≠ label by omega)]
  have hmiss : ∀ label, l.base+1 < label → label ≤ l.exit →
      f.blockAt label = (d.lastBlocks l).find? (·.label == label) := by
    intro label hl hl'
    rw [hlater label hl, List.find?_append, find?_cases_none Nat.one_pos hl', Option.none_or]
  refine ⟨?_, ?_, ?_, ?_, ?_, ?_⟩
  · exact (hentry' l.header (Nat.le_refl _)).trans (find?_label_self (d.headerBlock l h β ι) _)
  · refine (hentry' l.body (Nat.le_succ _)).trans ?_
    rw [find?_label_ne (show l.base ≠ l.body from Nat.ne_of_lt (Nat.lt_succ_self _))]
    exact find?_label_self (bodyBlock l h bbs.length) _
  · intro j b hj hb
    obtain ⟨blk, hfind, hcase⟩ := hcase j b hj hb
    refine ⟨blk, ?_, hcase⟩
    rw [hlater _ (by simp only [Labels.bb]; omega), List.find?_append, hfind, Option.some_or]
  · rw [hmiss _ (by simp [Labels.selmerge]) (by simp [Labels.selmerge, Labels.exit])]
    simp [lastBlocks]
  · rw [hmiss _ (by simp [Labels.cont]) (by simp [Labels.cont, Labels.exit])]
    simp [lastBlocks, Labels.selmerge, Labels.cont]
  · rw [hmiss _ (by simp [Labels.exit]) (Nat.le_refl _)]
    simp [lastBlocks, Labels.selmerge, Labels.cont, Labels.exit]

/- One step of a run. -/

section
variable (g : Grammar) (I : Interp V Mem) (M : Module) (ρ₀ : Nat → V)

/-- The target where `fuel` is left for calls. -/
def targetAt (iface : List Nat) (fuel : Nat) : Target V Mem where
  g := g
  I := I
  call := callFn g I M iface ρ₀ fuel
  iface := iface

variable {g I M ρ₀} {iface : List Nat} {f : Fn} {b : Block} {label next F : Nat}

theorem runFrom_jump (st : State V Mem) {Q : State V Mem → Prop} (hb : f.blockAt label = some b)
    (h : Jumps (targetAt g I M ρ₀ iface F).exec b.insns next Q
      { st with cur := label, prev := st.cur }) :
    ∃ t, Q t ∧ runFrom g I M iface ρ₀ (F+1) f label st = runFrom g I M iface ρ₀ F f next t := by
  obtain ⟨t, ht, hq⟩ := h
  refine ⟨t, hq, ?_⟩
  rw [runFrom_succ, hb, Option.bind_some]
  change outcome _ (runInsns (targetAt g I M ρ₀ iface F).exec b.insns _) = _
  rw [ht]
  rfl

theorem runFrom_exit {e : Exit V Mem} (hb : f.blockAt label = some b)
    (h : runInsns (targetAt g I M ρ₀ iface F).exec b.insns
      { st with cur := label, prev := st.cur } = .exit e) :
    runFrom g I M iface ρ₀ (F+1) f label st = some e := by
  rw [runFrom_succ, hb, Option.bind_some]
  change outcome _ (runInsns (targetAt g I M ρ₀ iface F).exec b.insns _) = _
  rw [h]
  rfl

end

/- Rounds of the loop. -/

theorem airBody_env {φ : Nat × XlateInst → Option V} {ps : List (Nat × XlateInst)}
    {s s' : AirState V Mem} (h : d.airBody A φ ps s = some s')
    (hv : ∀ p ∈ ps, d.produces p = true → p.1 ≠ v) : s'.env v = s.env v := by
  induction ps generalizing s with
  | nil =>
    cases h
    rfl
  | cons p ps ih =>
    obtain ⟨s₁, hs₁, hrest⟩ := Option.bind_eq_some_iff.mp h
    rw [ih hrest fun q hq => hv q (List.mem_cons_of_mem p hq)]
    have hne : ∀ x, d.produces p = true → Function.update s.env p.1 x v = s.env v := by
      intro x hp
      exact Function.update_of_ne (hv p List.mem_cons_self hp).symm _ _
    rw [airInst] at hs₁
    split at hs₁
    · cases hs₁
      rfl
    · next hc =>
      obtain ⟨x, -, rfl⟩ := Option.map_eq_some_iff.mp hs₁
      exact hne _ (produces_phi hc)
    · split at hs₁
      · cases hs₁
      · obtain ⟨r, -, rfl⟩ := Option.map_eq_some_iff.mp hs₁
        cases hp : d.produces p with
        | false => simp
        | true => simpa using hne _ hp

/-- What the pieces of the target do, at every fuel a call may have left. -/
structure Lowered (d : Dispatch) (bbs : List AirBb) (m start β ι : Nat) (c₁ fin : DispatchCtx)
    (l : Labels) (h F : Nat) (f : Fn) (g : Grammar) (I : Interp V Mem) (M : Module)
    (ρ₀ : Nat → V) (A : AirInterp V Mem) (num : Nat → V) (bool : Bool → V) : Prop where
  body : d.Numbered bbs m
  ids : ∀ b ∈ bbs, d.FreshIds start b
  final : fin.Ok start β ι
  const : ∀ k, UsesConst bbs k → d.const k < start
  first : c₁.Ok start β ι
  grows : c₁.Grows fin
  block : β ≠ 0
  iter : ι ≠ 0
  header : c₁.nextId ≤ h
  layout : d.Layout bbs start β ι c₁ fin l h f
  control : ∀ F', (targetAt g I M ρ₀ fin.vars F').Control A num bool
  emits : ∀ F', F ≤ F' → d.Emits A (targetAt g I M ρ₀ fin.vars F')

section
variable {h F : Nat} {f : Fn} {g : Grammar} {I : Interp V Mem} {M : Module} {ρ₀ : Nat → V}
variable (hl : d.Lowered bbs m start β ι c₁ fin l h F f g I M ρ₀ A num bool)
include hl

theorem Lowered.world (F' : Nat) : d.World bbs start β ι fin (targetAt g I M ρ₀ fin.vars F') :=
  ⟨rfl, hl.final, hl.const⟩

theorem Lowered.block_mem (F' : Nat) : β ∈ (targetAt g I M ρ₀ fin.vars F').iface :=
  (hl.world F').iface_mem (hl.first.cellMem .block hl.block) hl.grows

/-- From the header to the code of the next block. -/
theorem Lowered.dispatch (F' : Nat) {j : Nat} (h0 : 0 < j) (hj : j < bbs.length)
    (hst : Between d bbs ι fin c₁ num γ st) (hio : st.io β = num j) (hi : γ.iter+1 < 65536) :
    ∃ t, Between d bbs ι fin c₁ num { γ with iter := γ.iter+1 } t ∧
      runFrom g I M fin.vars ρ₀ (F'+2) f l.header st =
        runFrom g I M fin.vars ρ₀ F' f (l.bb j) t := by
  have hheader := headerBlock_runs (l := l) (hl.world (F'+1)) (hl.control (F'+1)) hl.first hl.grows
    hl.block hl.iter hl.header (hst.label l.header st.cur) hio (by omega)
    hl.body.ok.two
  rw [if_pos hi] at hheader
  obtain ⟨t, ⟨hb, hcur⟩, hrun⟩ := runFrom_jump _ hl.layout.header hheader
  have hcur' : ({ t with cur := l.body, prev := t.cur } : State V Mem).env h = num j := hcur
  have hbody := bodyBlock_runs (l := l) (hl.control F') h0 hj hl.body.ok.few hcur'
  obtain ⟨u, rfl, hrun'⟩ := runFrom_jump _ hl.layout.body hbody
  exact ⟨_, hb.label _ _, hrun.trans hrun'⟩

/-- From the end of a block back to the header. -/
theorem Lowered.back (F' : Nat) (hst : Between d bbs ι fin c₁ num γ st) :
    ∃ t, Between d bbs ι fin c₁ num γ t ∧ t.io = st.io ∧
      runFrom g I M fin.vars ρ₀ (F'+2) f l.selmerge st =
        runFrom g I M fin.vars ρ₀ F' f l.header t := by
  have hbranch : ∀ F' label (s : State V Mem),
      Jumps (targetAt g I M ρ₀ fin.vars F').exec [opBranch label] label (fun t => t = s) s :=
    fun F' label s => jumps_single ((hl.control F').branch label s) rfl
  obtain ⟨t, rfl, hrun⟩ := runFrom_jump _ hl.layout.selmerge (hbranch (F'+1) l.cont
    { st with cur := l.selmerge, prev := st.cur })
  have hback := runFrom_jump { st with cur := l.selmerge, prev := st.cur }
    hl.layout.cont (hbranch F' l.header { st with cur := l.cont, prev := l.selmerge })
  obtain ⟨u, rfl, hrun'⟩ := hback
  exact ⟨_, (hst.label l.selmerge st.cur).label l.cont l.selmerge, rfl, hrun.trans hrun'⟩

theorem Lowered.phis_due {j : Nat} {b : AirBb} (hb : bbs[j]? = some b)
    (hdue : edgePhis bbs j ⊆ γ.due) : b.phis ⊆ γ.due := by
  rw [edgePhis, hb] at hdue
  exact hdue

/-- A block that goes on to block `j'`. -/
theorem Lowered.block_runs (F' : Nat) (hF : F ≤ F') {j j' : Nat} {b : AirBb} {s : AirState V Mem}
    (h0 : 0 < j) (hb : bbs[j]? = some b) (hst : Between d bbs ι fin c₁ num γ st)
    (hdue : edgePhis bbs j ⊆ γ.due)
    (hs : d.airBody A γ.phi b.body ⟨γ.env, γ.mem⟩ = some s)
    (hnext : airNext A b.term s.env = some j') :
    ∃ t, (Between d bbs ι fin c₁ num ⟨s.env, s.mem, edgePhis bbs j', onEdge j s.env, γ.iter⟩ t ∧
        t.io β = num j') ∧
      runFrom g I M fin.vars ρ₀ (F'+1) f (l.bb j) st =
        runFrom g I M fin.vars ρ₀ F' f l.selmerge t := by
  obtain ⟨blk, hfind, c, n, hcur, hstart, hgrow, hcode, hgfin⟩ := hl.layout.case j b h0 hb
  have hat := (hst.label (l.bb j) st.cur).enter hl.body hstart hgrow
  have hl' := hstart.leaves hl.body hl.ids l.selmerge
  refine runFrom_jump st hfind ?_
  rw [hcode]
  refine (hstart.runs hl.body hl.ids (hl.world F') (hl.control F') (hl.emits F' hF) hl.block
    (hl.block_mem F') hgfin hat (hl.phis_due hb hdue) hs hnext).imp ?_
  rintro t ⟨hio, ht⟩
  rw [hcur] at ht
  refine ⟨ht.between (hgrow.trans hl'.ext.toGrows) ?_, hio⟩
  -- the block leaves the values of the entry alone
  intro v x hv hx
  have hother : ∀ p ∈ b.body, d.produces p = true → p.1 ≠ v := by
    rintro p hp hprod rfl
    rcases hv with hv | hv
    · have := hstart.counts.ge_of_mem hp
      have := hstart.base
      omega
    · rw [hl.body.own hb hp hprod] at hv
      cases hv
      exact absurd h0 (Nat.lt_irrefl _)
  change s.env v = some x at hx
  rw [airBody_env hs hother] at hx
  have hbound := (hst.base v x hv hx).1
  refine ⟨?_, hbound⟩
  by_contra hge
  have hbase := hstart.base
  have hle := hstart.counts.le
  refine hbound ?_
  have hzero := hstart.reached.unbound v (by omega) (by omega)
  by_contra hne
  exact hne (by rw [← hgrow.bound v hne, hzero])

theorem Lowered.block_returns (F' : Nat) (hF : F ≤ F') {j : Nat} {b : AirBb} {s : AirState V Mem}
    {vals : List V} (h0 : 0 < j) (hb : bbs[j]? = some b)
    (hst : Between d bbs ι fin c₁ num γ st) (hdue : edgePhis bbs j ⊆ γ.due)
    (hs : d.airBody A γ.phi b.body ⟨γ.env, γ.mem⟩ = some s) (hc : b.term.2.code = .ret)
    (hvals : d.readOperands b.term s.env = some vals) :
    ∃ io, runFrom g I M fin.vars ρ₀ (F'+1) f (l.bb j) st = some (.returned
      (A.ret b.term.2 vals s.mem).1 (A.ret b.term.2 vals s.mem).2 io) := by
  obtain ⟨blk, hfind, c, n, hcur, hstart, hgrow, hcode, hgfin⟩ := hl.layout.case j b h0 hb
  have hat := (hst.label (l.bb j) st.cur).enter hl.body hstart hgrow
  obtain ⟨io, hio⟩ := hstart.returns hl.body hl.ids (hl.world F') (hl.emits F' hF) hgfin hat
    (hl.phis_due hb hdue) hs hc hvals
  rw [← hcode] at hio
  exact ⟨io, runFrom_exit hfind hio⟩

omit hl in
theorem airNext_mem {p : Nat × XlateInst} {env : Nat → Option V} {j : Nat}
    (h : airNext A p env = some j) : j ∈ successors p.2 := by
  rw [airNext] at h
  rw [successors]
  split at h
  · split at h
    · next h1 => simp [h1, ← Option.some.inj h]
    · next h1 =>
      split at h
      · next h3 =>
        obtain ⟨x, -, rfl⟩ := Option.map_eq_some_iff.mp h
        simp only [if_neg h1, if_pos h3]
        split <;> simp
      · cases h
  · split at h
    · cases h
    · next hlen =>
      obtain ⟨x, -, hsel⟩ := Option.bind_eq_some_iff.mp h
      obtain ⟨vals, -, rfl⟩ := lastCase_of_selectCase hsel
      simp only [if_neg hlen]
      rcases lastCase_mem A x (opAt p.2 2) (switchCases p.2) vals with hj | ⟨y, hy, hj⟩
      · rw [hj]
        exact List.mem_cons_self
      · rw [hj]
        exact List.mem_cons_of_mem _ (List.mem_map_of_mem hy)
  · cases h

/-- What a run of the source from block `j` on says of the target at the header: the same
result, or as many rounds counted. -/
def Follows (d : Dispatch) (bbs : List AirBb) (ι : Nat) (fin c₁ : DispatchCtx) (num : Nat → V)
    (β fuel : Nat) (γ : Ghost V Mem) (run : Nat → State V Mem → Option (Exit V Mem)) (F' : Nat)
    (st : State V Mem) : AirOutcome V Mem → Prop
  | .returned v mem => ∃ io, run (F'+5*fuel) st = some (.returned v mem io)
  | .running mem => ∃ t γ' j, Between d bbs ι fin c₁ num γ' t ∧ γ'.mem = mem ∧
      γ'.iter = γ.iter+fuel ∧ t.io β = num j ∧ run (F'+5*fuel) st = run F' t
  | .stuck => True

omit hl in
theorem Follows.round {fuel F' : Nat} {γ₁ : Ghost V Mem} {o : AirOutcome V Mem}
    {run : Nat → State V Mem → Option (Exit V Mem)}
    (h : Follows d bbs ι fin c₁ num β fuel γ₁ run F' t o) (hi : γ₁.iter = γ.iter+1)
    (hrun : run (F'+5*(fuel+1)) st = run (F'+5*fuel) t) :
    Follows d bbs ι fin c₁ num β (fuel+1) γ run F' st o := by
  cases o with
  | returned v mem =>
    obtain ⟨io, hio⟩ := h
    exact ⟨io, hrun.trans hio⟩
  | running mem =>
    obtain ⟨u, γ', j, hb, hmem, hiter, hio, hu⟩ := h
    exact ⟨u, γ', j, hb, hmem, by omega, hio, hrun.trans hu⟩
  | stuck => trivial

theorem Lowered.loop_runs {fuel F' j : Nat} (hF : F ≤ F') (h0 : 0 < j) (hj : j < bbs.length)
    (hst : Between d bbs ι fin c₁ num γ st) (hdue : edgePhis bbs j ⊆ γ.due)
    (hio : st.io β = num j) (hi : γ.iter+fuel < 65536) :
    Follows d bbs ι fin c₁ num β fuel γ
      (fun n s => runFrom g I M fin.vars ρ₀ n f l.header s) F' st
      (d.airRun A bbs fuel j γ.phi ⟨γ.env, γ.mem⟩) := by
  induction fuel generalizing j γ st with
  | zero => exact ⟨st, γ, j, hst, rfl, rfl, hio, rfl⟩
  | succ fuel ih =>
    have hb : bbs[j]? = some bbs[j] := List.getElem?_eq_getElem hj
    obtain ⟨t, ht, hrun⟩ := hl.dispatch (F'+5*fuel+3) h0 hj hst hio (by omega)
    by_cases hstuck : d.airRun A bbs (fuel+1) j γ.phi ⟨γ.env, γ.mem⟩ = .stuck
    · rw [hstuck]
      trivial
    obtain ⟨s, hs, ⟨hc, vals, hvals, ho⟩ | ⟨j', hnext, ho⟩⟩ := airRun_succ hb hstuck
    · rw [ho]
      obtain ⟨io, hret⟩ := hl.block_returns (F'+5*fuel+2) (by omega) h0 hb ht hdue hs hc hvals
      exact ⟨io, hrun.trans hret⟩
    · rw [ho]
      have hterm := (hl.body.ok.block j _ hb).term
      obtain ⟨h0', hj'⟩ := hterm.targets j' (airNext_mem hnext)
      obtain ⟨u, ⟨hu, huio⟩, hrun₂⟩ :=
        hl.block_runs (F'+5*fuel+2) (by omega) h0 hb ht hdue hs hnext
      obtain ⟨v, hv, hvio, hrun₃⟩ := hl.back (F'+5*fuel) hu
      have hrest := ih h0' hj' hv (List.Subset.refl _) (hvio ▸ huio) (by simp only; omega)
      exact hrest.round rfl ((hrun.trans hrun₂).trans hrun₃)

/-- At the cap the header leaves through the last block. -/
theorem Lowered.bails (F' : Nat) {j : Nat} (hst : Between d bbs ι fin c₁ num γ st)
    (hio : st.io β = num j) (hi : γ.iter = 65535) :
    ∃ t : State V Mem, t.mem = γ.mem ∧ runFrom g I M fin.vars ρ₀ (F'+2) f l.header st =
      some (.returned (d.helperRet.map t.env) t.mem t.io) := by
  have hheader := headerBlock_runs (l := l) (hl.world (F'+1)) (hl.control (F'+1)) hl.first hl.grows
    hl.block hl.iter hl.header (hst.label l.header st.cur) hio (by omega)
    hl.body.ok.two
  rw [if_neg (by omega)] at hheader
  obtain ⟨t, ⟨hb, -⟩, hrun⟩ := runFrom_jump _ hl.layout.header hheader
  refine ⟨{ t with cur := l.exit, prev := t.cur }, hb.mem, hrun.trans ?_⟩
  refine runFrom_exit hl.layout.exit ?_
  simp only [bail]
  cases d.helperRet <;> rfl

end

/- The entry. -/

theorem localVars_lands {T : Target V Mem} (hctl : T.Control A num bool)
    {vs : List (Nat × Nat)} (hvs : ∀ p ∈ vs, start ≤ p.2) (st : State V Mem) :
    Lands T.exec (vs.map fun p => ⟨.var, [p.1, p.2, 7]⟩)
      (fun t => t.io = st.io ∧ t.mem = st.mem ∧ ∀ y < start, t.env y = st.env y) st := by
  induction vs generalizing st with
  | nil => exact lands_nil ⟨rfl, rfl, fun _ _ => rfl⟩
  | cons p vs ih =>
    obtain ⟨x, hx⟩ := hctl.var p.1 p.2 st
    rw [List.map_cons]
    refine .cons hx ((ih (fun q hq => hvs q (List.mem_cons_of_mem p hq)) _).imp ?_)
    rintro t ⟨hio, hmem, henv⟩
    refine ⟨hio, hmem, ?_⟩
    intro y hy
    rw [henv y hy, State.set_lt _ _ (hy.trans_le (hvs p List.mem_cons_self))]

/-- Arguments and constants are at hand, in source and target. -/
structure AtEntry (d : Dispatch) (bbs : List AirBb) (bound : Nat → Nat) (num : Nat → V)
    (η : Nat → Option V) (st : State V Mem) : Prop where
  env : ∀ v x, η v = some x →
    v < d.ctx.layout.instIdBase ∧ bound v ≠ 0 ∧ st.env (bound v) = x
  consts : ∀ k, UsesConst bbs k → st.env (d.const k) = num k

/-- The entry block, emitted from `c` on. -/
structure EntryOf (d : Dispatch) (bbs : List AirBb) (start β ι : Nat) (bound : Nat → Nat)
    (c₁ fin : DispatchCtx) (l : Labels) (entry : Nat) (f : Fn) (c : DispatchCtx) (b : AirBb) :
    Prop where
  given : d.StartOk start bound
  starts : d.Starts bbs start β ι c d.ctx.layout.instIdBase b
  cur : c.curBb = 0
  bound : c.bound = bound
  after : (d.blockCode bbs c b β l.header).2 = c₁
  block : f.blockAt entry = some
    ⟨entry, localVars fin ++ opStore ι (d.const 0) :: (d.blockCode bbs c b β l.header).1⟩

section
variable {bound : Nat → Nat} {entry F : Nat} {f : Fn} {g : Grammar} {I : Interp V Mem}
variable {M : Module} {ρ₀ : Nat → V} {η : Nat → Option V}

theorem partition_ne_nil : d.partition ≠ some [] := by
  intro h
  rw [partition] at h
  split at h
  · cases h
  · split at h
    · cases h
    · next hlen =>
      cases h
      exact hlen (by decide)

theorem lowered_of_translate (hok : d.BodyOk bbs) (hids : ∀ b ∈ bbs, d.FreshIds start b)
    (hconst : ∀ k, UsesConst bbs k → d.const k < start) (hstart : d.StartOk start bound)
    (hentry : entry < start)
    (hlow : d.translateBodyDispatch entry (startCtx start bound) = some (f.blocks, fin))
    (hctl : ∀ F', (targetAt g I M ρ₀ fin.vars F').Control A num bool)
    (hem : ∀ F', F ≤ F' → d.Emits A (targetAt g I M ρ₀ fin.vars F')) :
    ∃ m β ι l h c₁ c b, d.Lowered bbs m start β ι c₁ fin l h F f g I M ρ₀ A num bool ∧
      d.EntryOf bbs start β ι bound c₁ fin l entry f c b := by
  obtain ⟨m, hcap, hcounts⟩ := hok.counts
  have hd : d.Numbered bbs m := ⟨hok, hcounts, hcap⟩
  rw [translateBodyDispatch, hok.blocks] at hlow
  simp only [Option.some.injEq] at hlow
  cases bbs with
  | nil => exact absurd hok.blocks partition_ne_nil
  | cons b rest =>
    have hready := prologue_ready hd hstart
    simp only [dispatchBlocks] at hlow
    generalize d.prologue (b :: rest) (startCtx start bound) = s at *
    have hst₀ : d.Starts (b :: rest) start s.blockvar s.itervar s.ctx d.ctx.layout.instIdBase b :=
      ⟨by rw [hready.cur]; rfl, hready.reached, hcounts.1, Nat.le_refl _⟩
    have hl₀ := hst₀.leaves hd hids s.labels.header
    have hafter : (d.blockCode (b :: rest) s.ctx b s.blockvar s.labels.header).2.Ok start s.blockvar
        s.itervar := hl₀.reached.ok
    have htake : d.Reached (b :: rest) start s.blockvar s.itervar b.term.1 b.term.1
        ((d.blockCode (b :: rest) s.ctx b s.blockvar s.labels.header).2.take 4 0 0) :=
      hl₀.reached.take (Nat.add_pos_right _ (by decide)) hafter.zero_not_mem (.inl rfl)
        (Nat.le_refl _)
    obtain ⟨hgrow, hlast, hfind⟩ := caseBlocks_find (l := s.labels) hd hids htake hcounts.2.2
      (show rest = (b :: rest).drop 1 from rfl) hcounts.1.le
      (DispatchCtx.grows_take 4 (.inl rfl))
    obtain ⟨hblocks, hfin⟩ := Prod.mk.inj hlow
    change (d.caseBlocks (b :: rest) s.labels s.blockvar 1 rest
      ((d.blockCode (b :: rest) s.ctx b s.blockvar s.labels.header).2.take 4 0 0)).2 = fin at hfin
    rw [hfin] at hgrow hlast hfind
    have hlayout := layout_of_blocks (hentry.trans_le hready.labels.1) hblocks.symm
      fun j b' hj hb' => hfind fin (.refl fin) j b' hj hb'
    refine ⟨m, s.blockvar, s.itervar, s.labels, _, _, s.ctx, b, ⟨hd, hids, hlast.ok, hconst, hafter,
      (DispatchCtx.grows_take 4 (.inl rfl)).trans hgrow, hready.block, hready.iter,
      Nat.le_refl _, hlayout, hctl, hem⟩, ⟨hstart, hst₀, hready.cur, hready.bound, rfl, ?_⟩⟩
    rw [Fn.blockAt, ← hblocks, ← hfin]
    exact find?_label_self ⟨entry, _⟩ _

section
variable {h : Nat} {b : AirBb}
variable (hl : d.Lowered bbs m start β ι c₁ fin l h F f g I M ρ₀ A num bool)
variable (he : d.EntryOf bbs start β ι bound c₁ fin l entry f c b)
include hl he

omit hl in
theorem EntryOf.first : bbs[0]? = some b := by
  rw [← he.cur]
  exact he.starts.block

theorem EntryOf.grows : c.Grows c₁ := by
  rw [← he.after]
  exact (he.starts.leaves hl.body hl.ids l.header).ext.toGrows

/-- The variables and the counter, before the entry block's own code. -/
theorem EntryOf.lands (hat : d.AtEntry bbs bound num η st) (F' : Nat) :
    Lands (targetAt g I M ρ₀ fin.vars F').exec (localVars fin ++ [opStore ι (d.const 0)])
      (At d bbs ι fin num c d.ctx.layout.instIdBase ⟨η, st.mem, [], fun _ => none, 0⟩)
      { st with cur := entry, prev := st.cur } := by
  have hvars : ∀ p ∈ fin.locals, start ≤ p.2 := fun p hp =>
    (hl.final.varLt p.2 (List.mem_map_of_mem hp)).1
  have hmem := (hl.world F').iface_mem (hl.first.cellMem .iter hl.iter) hl.grows
  refine (localVars_lands (hl.control F') hvars _).append ?_
  rintro t ⟨-, hmem', henv⟩
  refine lands_single (Target.exec_store _ hmem t) ?_
  have hconsts : ∀ k, UsesConst bbs k → t.env (d.const k) = num k := fun k hk =>
    (henv _ (hl.const k hk)).trans (hat.consts k hk)
  refine ⟨?_, ?_, hconsts, hmem', nofun, ?_⟩
  · intro v x _ hv hx
    obtain ⟨-, hne, hx⟩ := hat.env v x hx
    have hb : c.bound v = bound v := congrFun he.bound v
    rw [hb, State.put_env]
    refine ⟨hne, ?_⟩
    rw [henv _ (he.given.lt v)]
    exact hx
  · intro v x hk hx
    obtain ⟨hv, -, -⟩ := hat.env v x hx
    obtain ⟨⟨k, -, hdef⟩, -⟩ := hk
    have := (hl.body.defBb_eq_some.mp hdef).ge hl.body.counts
    omega
  · exact (State.put_self _ _ _).trans (hconsts 0 (.inl (Nat.zero_lt_of_lt hl.body.ok.two)))

theorem EntryOf.due : b.phis ⊆ ([] : List (Nat × XlateInst)) := by
  intro p hp
  have hphi : p.2.code = .phi := by simpa using List.mem_takeWhile_imp hp
  have := (he.starts.blockOk hl.body).phis p (List.takeWhile_subset _ hp) hphi
  exact absurd he.cur this.2.1

/-- The entry block goes on to the header. -/
theorem EntryOf.runs (hat : d.AtEntry bbs bound num η st) {F' : Nat} (hF : F ≤ F')
    {s : AirState V Mem} {j : Nat} (hs : d.airBody A (fun _ => none) b.body ⟨η, st.mem⟩ = some s)
    (hnext : airNext A b.term s.env = some j) :
    ∃ t, (Between d bbs ι fin c₁ num ⟨s.env, s.mem, edgePhis bbs j, onEdge 0 s.env, 0⟩ t ∧
        t.io β = num j) ∧
      runFrom g I M fin.vars ρ₀ (F'+1) f entry st = runFrom g I M fin.vars ρ₀ F' f l.header t := by
  have hg : (d.blockCode bbs c b β l.header).2.Grows fin := by
    rw [he.after]
    exact hl.grows
  refine runFrom_jump st he.block ?_
  rw [show localVars fin ++ opStore ι (d.const 0) :: (d.blockCode bbs c b β l.header).1 =
    (localVars fin ++ [opStore ι (d.const 0)]) ++ (d.blockCode bbs c b β l.header).1 by simp]
  refine (he.lands hl hat F').jumps ?_
  intro t ht
  refine (he.starts.runs hl.body hl.ids (hl.world F') (hl.control F') (hl.emits F' hF) hl.block
    (hl.block_mem F') hg ht (he.due hl) hs hnext).imp ?_
  rintro u ⟨hio, hu⟩
  rw [he.after, he.cur] at hu
  refine ⟨hu.between (.refl c₁) ?_, hio⟩
  intro v x hv hx
  have hlt : v < b.term.1 := by
    rcases hv with hv | hv
    · exact hv.trans_le he.starts.counts.le
    · obtain ⟨b', p, hb', hp, rfl, hprod⟩ := hl.body.defBb_eq_some.mp hv
      have hb := he.starts.block
      rw [he.cur, hb'] at hb
      cases hb
      exact he.starts.counts.lt_of_mem hp hprod
  exact ⟨hlt, (hu.direct v x (hv.not_crosses _) hlt hx).1⟩

theorem EntryOf.returns (hat : d.AtEntry bbs bound num η st) {F' : Nat} (hF : F ≤ F')
    {s : AirState V Mem} {vals : List V}
    (hs : d.airBody A (fun _ => none) b.body ⟨η, st.mem⟩ = some s)
    (hc : b.term.2.code = .ret) (hvals : d.readOperands b.term s.env = some vals) :
    ∃ io, runFrom g I M fin.vars ρ₀ (F'+1) f entry st = some (.returned
      (A.ret b.term.2 vals s.mem).1 (A.ret b.term.2 vals s.mem).2 io) := by
  have hg : (d.blockCode bbs c b β l.header).2.Grows fin := by
    rw [he.after]
    exact hl.grows
  have hrun := (he.lands hl hat F').rest (P := fun o => ∃ io, o = .exit (.returned
    (A.ret b.term.2 vals s.mem).1 (A.ret b.term.2 vals s.mem).2 io)) fun t ht =>
    he.starts.returns hl.body hl.ids (hl.world F') (hl.emits F' hF) hg ht (he.due hl) hs hc hvals
  obtain ⟨io, hio⟩ := hrun
  refine ⟨io, runFrom_exit he.block ?_⟩
  rw [← hio]
  simp

/-- The entry block, and the loop. -/
theorem EntryOf.follows (hat : d.AtEntry bbs bound num η st) {fuel F' : Nat} (hF : F ≤ F')
    {s : AirState V Mem} {j : Nat} (hs : d.airBody A (fun _ => none) b.body ⟨η, st.mem⟩ = some s)
    (hnext : airNext A b.term s.env = some j) (hfuel : fuel < 65536) :
    ∃ t, runFrom g I M fin.vars ρ₀ (F'+5*fuel+1) f entry st =
        runFrom g I M fin.vars ρ₀ (F'+5*fuel) f l.header t ∧
      Follows d bbs ι fin c₁ num β fuel
        (⟨s.env, s.mem, edgePhis bbs j, onEdge 0 s.env, 0⟩ : Ghost V Mem)
        (fun n s => runFrom g I M fin.vars ρ₀ n f l.header s) F' t
        (d.airRun A bbs fuel j (onEdge 0 s.env) s) := by
  obtain ⟨h0, hj⟩ := (he.starts.blockOk hl.body).term.targets j (airNext_mem hnext)
  obtain ⟨t, ⟨ht, hio⟩, hrun⟩ := he.runs hl hat (show F ≤ F'+5*fuel by omega) hs hnext
  refine ⟨t, hrun, ?_⟩
  exact hl.loop_runs hF h0 hj ht (List.Subset.refl _) hio (show 0+fuel < 65536 by omega)

theorem EntryOf.returned (hat : d.AtEntry bbs bound num η st) {fuel : Nat} (hfuel : fuel < 65536)
    {v : Option V} {mem : Mem}
    (ho : d.airRun A bbs (fuel+1) 0 (fun _ => none) ⟨η, st.mem⟩ = .returned v mem) :
    ∃ io, runFrom g I M fin.vars ρ₀ (F+5*fuel+1) f entry st = some (.returned v mem io) := by
  have hstuck : d.airRun A bbs (fuel+1) 0 (fun _ => none) ⟨η, st.mem⟩ ≠ .stuck := by
    rw [ho]
    exact nofun
  obtain ⟨s, hs, ⟨hc, vals, hvals, hret⟩ | ⟨j, hnext, hret⟩⟩ := airRun_succ he.first hstuck
  · rw [ho] at hret
    cases hret
    exact he.returns hl hat (by omega) hs hc hvals
  · obtain ⟨t, hrun, hloop⟩ := he.follows hl hat (Nat.le_refl F) hs hnext hfuel
    rw [← hret, ho] at hloop
    obtain ⟨io, hio⟩ := hloop
    exact ⟨io, hrun.trans hio⟩

theorem EntryOf.capped (hat : d.AtEntry bbs bound num η st) {mem : Mem}
    (ho : d.airRun A bbs (65535+1) 0 (fun _ => none) ⟨η, st.mem⟩ = .running mem) :
    ∃ t : State V Mem, t.mem = mem ∧ runFrom g I M fin.vars ρ₀ (F+2+5*65535+1) f entry st =
      some (.returned (d.helperRet.map t.env) mem t.io) := by
  have hstuck : d.airRun A bbs (65535+1) 0 (fun _ => none) ⟨η, st.mem⟩ ≠ .stuck := by
    rw [ho]
    exact nofun
  obtain ⟨s, hs, ⟨hc, vals, hvals, hret⟩ | ⟨j, hnext, hret⟩⟩ := airRun_succ he.first hstuck
  · rw [ho] at hret
    cases hret
  · obtain ⟨t, hrun, hloop⟩ := he.follows hl hat (Nat.le_add_right F 2) hs hnext
      (Nat.lt_succ_self 65535)
    rw [← hret, ho] at hloop
    obtain ⟨u, γ', j', hu, hmem, hiter, hio, hrun'⟩ := hloop
    simp only [Nat.zero_add] at hiter
    obtain ⟨w, hw, hbail⟩ := hl.bails F hu hio hiter
    refine ⟨w, hw.trans hmem, ?_⟩
    rw [← hmem, ← hw]
    exact hrun.trans (hrun'.trans hbail)

end

end

end Dispatch

end Lagfx.Spirv
