import Lagfx.DispatchSound
import Mathlib.Data.List.Nodup

/-! The loop around the blocks: the labels of the function, the variables made ahead, and
what holds between two blocks. -/
namespace Lagfx.Spirv
open Ssa
variable {V Mem : Type}

namespace Dispatch
variable {d : Dispatch} {bbs : List AirBb} {start β ι n k v m : Nat} {fin c c' c₁ : DispatchCtx}
variable {num : Nat → V} {bool : Bool → V} {γ : Ghost V Mem} {st t : State V Mem}
variable {T : Target V Mem} {A : AirInterp V Mem} {l : Labels}

theorem Labels.bb_inj {l : Labels} {i j : Nat} (h : l.bb i = l.bb j) : i = j := by
  simp only [Labels.bb] at h
  omega

/-- A case of the function: what was emitted for block `j`, and from where. -/
def IsCase (d : Dispatch) (bbs : List AirBb) (start β ι : Nat) (c₁ fin : DispatchCtx) (l : Labels)
    (j : Nat) (b : AirBb) (blk : Block) : Prop :=
  ∃ c n, c.curBb = j ∧ d.Starts bbs start β ι c n b ∧ c₁.Grows c ∧
    blk.insns = (d.blockCode bbs c b β l.selmerge).1 ∧
    (d.blockCode bbs c b β l.selmerge).2.Grows fin

theorem caseBlocks_label {bs : List AirBb} {blk : Block}
    (h : blk ∈ (d.caseBlocks bbs l β k bs c).1) :
    ∃ j, k ≤ j ∧ j < k+bs.length ∧ blk.label = l.bb j := by
  induction bs generalizing k c with
  | nil => cases h
  | cons b bs ih =>
    rw [caseBlocks] at h
    rcases List.mem_cons.mp h with rfl | h
    · exact ⟨k, Nat.le_refl k, by simp, rfl⟩
    · obtain ⟨j, hkj, hj, hlabel⟩ := ih h
      rw [List.length_cons]
      exact ⟨j, by omega, by omega, hlabel⟩

section
variable (hd : d.Numbered bbs m) (hids : ∀ b ∈ bbs, d.FreshIds start b)
include hd hids

/-- All cases: what they leave, and what the label of each finds. -/
theorem caseBlocks_find {bs : List AirBb} (h : d.Reached bbs start β ι n n c)
    (hbs : BlockCounts d.types n bs m) (hdrop : bs = bbs.drop k)
    (hbase : d.ctx.layout.instIdBase ≤ n) (hc₁ : c₁.Grows c) :
    c.Grows (d.caseBlocks bbs l β k bs c).2 ∧
      d.Reached bbs start β ι m m (d.caseBlocks bbs l β k bs c).2 ∧
      ∀ fin, (d.caseBlocks bbs l β k bs c).2.Grows fin → ∀ j b, k ≤ j → bbs[j]? = some b →
        ∃ blk, (d.caseBlocks bbs l β k bs c).1.find? (·.label == l.bb j) = some blk ∧
          d.IsCase bbs start β ι c₁ fin l j b blk := by
  induction bs generalizing k n c with
  | nil =>
    cases hbs
    refine ⟨.refl c, h, ?_⟩
    intro fin hg j b hkj hb
    have hlen := congrArg List.length hdrop
    have hj := (List.getElem?_eq_some_iff.mp hb).1
    rw [List.length_drop, List.length_nil] at hlen
    omega
  | cons b bs ih =>
    have hb : bbs[k]? = some b := by
      have := congrArg List.head? hdrop
      rw [List.head?_drop] at this
      exact this.symm
    have hstart : d.Starts bbs start β ι (c.enter k) n b := ⟨hb, h.enter k, hbs.1, hbase⟩
    have hl := hstart.leaves hd hids l.selmerge
    have hgrow : c.Grows (d.blockCode bbs (c.enter k) b β l.selmerge).2 :=
      (c.grows_enter k).trans hl.ext.toGrows
    have hdrop' : bs = bbs.drop (k+1) := by
      rw [← List.tail_drop, ← hdrop]
      rfl
    obtain ⟨hg', hr', hfind⟩ := ih (k := k+1) hl.reached hbs.2.2 hdrop' (hbase.trans hbs.1.le)
      (hc₁.trans hgrow)
    rw [caseBlocks]
    refine ⟨hgrow.trans hg', hr', ?_⟩
    intro fin hg j b' hkj hb'
    rw [List.find?_cons]
    by_cases hj : j = k
    · subst hj
      rw [hb] at hb'
      cases hb'
      rw [beq_self_eq_true]
      exact ⟨_, rfl, c.enter j, n, rfl, hstart, hc₁.trans (c.grows_enter j), rfl, hg'.trans hg⟩
    · have hne : (l.bb k == l.bb j) = false := by
        rw [beq_eq_false_iff_ne]
        exact fun heq => hj (Labels.bb_inj heq).symm
      rw [hne]
      exact hfind fin hg j b' (by omega) hb'

end

/- The variables made ahead of the blocks. -/

theorem dispatchPrecreateSpills_spec (d : Dispatch) (bbs : List AirBb) {vs : List Nat}
    (hok : c.Ok start 0 0) (hvs : vs.Nodup) (hnew : ∀ v ∈ vs, c.spillVar v = 0) :
    (d.dispatchPrecreateSpills bbs c vs).Ok start 0 0 ∧
    c.Extends (d.dispatchPrecreateSpills bbs c vs) ∧
    (d.dispatchPrecreateSpills bbs c vs).bound = c.bound ∧
    (∀ v ∈ vs, (d.defBb bbs v).getD 0 ≠ 0 → d.preType v ≠ 0 →
      (d.dispatchPrecreateSpills bbs c vs).spillVar v ≠ 0 ∧
        (d.dispatchPrecreateSpills bbs c vs).spillType v = d.preType v) ∧
    ∀ v, d.preType v = 0 → (d.dispatchPrecreateSpills bbs c vs).spillVar v = c.spillVar v := by
  induction vs generalizing c with
  | nil => exact ⟨hok, .refl c, rfl, by simp, fun _ _ => rfl⟩
  | cons u us ih =>
    obtain ⟨hu, hus⟩ := List.nodup_cons.mp hvs
    rw [dispatchPrecreateSpills]
    by_cases hskip : (d.defBb bbs u).getD 0 = 0 ∨ d.preType u = 0
    · rw [if_pos hskip]
      obtain ⟨h1, h2, h3, h4, h5⟩ := ih hok hus fun v hv => hnew v (List.mem_cons_of_mem u hv)
      refine ⟨h1, h2, h3, ?_, h5⟩
      intro v hv hdef hpre
      rcases List.mem_cons.mp hv with rfl | hv
      · exact absurd hskip (not_or.mpr ⟨hdef, hpre⟩)
      · exact h4 v hv hdef hpre
    · rw [if_neg hskip]
      obtain ⟨hdef, hpre⟩ := not_or.mp hskip
      have hzero := hnew u List.mem_cons_self
      generalize d.ptrId (d.preType u) = ptr
      have hself := c.spillAt_self (d.preType u) ptr u
      have hother : ∀ v, v ≠ u → (c.spillAt u (d.preType u) ptr).spillVar v = c.spillVar v :=
        fun v hv => (c.spillAt_ne _ _ hv).1
      obtain ⟨h1, h2, h3, h4, h5⟩ := ih (hok.spillAt (d.preType u) ptr u) hus fun v hv => by
        have hvu : v ≠ u := by
          rintro rfl
          exact hu hv
        exact (hother v hvu).trans (hnew v (List.mem_cons_of_mem u hv))
      refine ⟨h1, (DispatchCtx.extends_spillAt _ _ hzero).trans h2, h3, ?_, ?_⟩
      · intro v hv hdef' hpre'
        by_cases hvu : v = u
        · have hset : (c.spillAt u (d.preType u) ptr).spillVar u ≠ 0 := by
            rw [hself.1]
            exact hok.next_pos.ne'
          obtain ⟨hs, ht⟩ := h2.spillVar u hset
          rw [hvu, hs, ht]
          exact ⟨hset, hself.2⟩
        · exact h4 v ((List.mem_cons.mp hv).resolve_left hvu) hdef' hpre'
      · intro v hv
        have hvu : v ≠ u := by
          rintro rfl
          exact hpre hv
        exact (h5 v hv).trans (hother v hvu)

/-- The context the lowering starts with. -/
def startCtx (start : Nat) (bound : Nat → Nat) : DispatchCtx := { nextId := start, bound := bound }

/-- What the entry of the lowering is given: ids for arguments and constants only. -/
structure StartOk (d : Dispatch) (start : Nat) (bound : Nat → Nat) : Prop where
  pos : 0 < start
  lt : ∀ v, bound v < start
  unbound : ∀ v, d.ctx.layout.instIdBase ≤ v → bound v = 0

theorem StartOk.ok {bound : Nat → Nat} (h : d.StartOk start bound) :
    (startCtx start bound).Ok start 0 0 where
  pos := h.pos
  startLe := Nat.le_refl _
  boundLt := h.lt
  plain := fun _ => List.not_mem_nil
  varLt := nofun
  cellMem := by
    intro k hk
    cases k <;> exact absurd rfl hk
  inj := by
    intro k l hk
    cases k <;> exact absurd rfl hk

theorem Ok.blockVar (hok : c.Ok start 0 0) (ty : Nat) :
    (c.localVar ty).Ok start c.nextId 0 := by
  refine hok.newCell .block rfl rfl (c.vars_localVar ty) rfl ?_
  intro l hl
  cases l <;> first | rfl | exact absurd rfl hl

theorem Ok.iterVar (hok : c.Ok start β 0) (ty : Nat) :
    (c.localVar ty).Ok start β c.nextId := by
  refine hok.newCell .iter rfl rfl (c.vars_localVar ty) rfl ?_
  intro l hl
  cases l <;> first | rfl | exact absurd rfl hl

theorem extends_localVar (c : DispatchCtx) (ty : Nat) : c.Extends (c.localVar ty) :=
  DispatchCtx.extends_newVar rfl rfl (c.vars_localVar ty) (fun _ _ => ⟨rfl, rfl⟩)
    (fun _ _ => rfl) rfl

/-- The context at the first block. -/
structure Ready (d : Dispatch) (bbs : List AirBb) (start : Nat) (bound : Nat → Nat)
    (s : Prologue) : Prop where
  reached : d.Reached bbs start s.blockvar s.itervar d.ctx.layout.instIdBase
    d.ctx.layout.instIdBase s.ctx
  bound : s.ctx.bound = bound
  cur : s.ctx.curBb = 0
  block : s.blockvar ≠ 0
  iter : s.itervar ≠ 0
  labels : start ≤ s.labels.base ∧ s.labels.base+(4+bbs.length) = s.ctx.nextId

theorem prologue_ready (hd : d.Numbered bbs m) {bound : Nat → Nat} (h : d.StartOk start bound) :
    d.Ready bbs start bound (d.prologue bbs (startCtx start bound)) := by
  have hvs : ((List.range (d.ctx.valueIdCapacity-d.ctx.layout.instIdBase)).map
      (d.ctx.layout.instIdBase+·)).Nodup :=
    List.Nodup.map (fun _ _ hij => Nat.add_left_cancel hij) List.nodup_range
  obtain ⟨hok, hext, hbound, hpre, hlate⟩ :=
    dispatchPrecreateSpills_spec d bbs h.ok hvs fun _ _ => rfl
  have hcur : { startCtx start bound with curBb := 0 } = startCtx start bound := rfl
  have hmem : ∀ v, d.ctx.layout.instIdBase ≤ v → v < d.ctx.valueIdCapacity →
      v ∈ (List.range (d.ctx.valueIdCapacity-d.ctx.layout.instIdBase)).map
        (d.ctx.layout.instIdBase+·) := by
    intro v hv hcap
    refine List.mem_map.mpr ⟨v-d.ctx.layout.instIdBase, List.mem_range.mpr (by omega), by omega⟩
  rw [prologue, hcur]
  generalize d.dispatchPrecreateSpills bbs (startCtx start bound) _ = c at *
  have hok₂ := Ok.iterVar (Ok.blockVar hok (d.ptrId d.uintId)) (d.ptrId d.uintId)
  have hnext := hok.next_pos
  have howner : ∀ v l, d.defBb bbs v = some l → d.ctx.layout.instIdBase ≤ v := by
    intro v l hl
    exact (hd.defBb_eq_some.mp hl).ge hd.counts
  refine ⟨⟨?_, ?_, ?_, ?_, ?_⟩, hbound, hext.cur, hnext.ne', Nat.succ_ne_zero _, ?_, rfl⟩
  · have hlt : 0 < ((c.localVar (d.ptrId d.uintId)).localVar (d.ptrId d.uintId)).nextId+
        (4+bbs.length) := Nat.add_pos_left hok₂.next_pos _
    exact hok₂.take 0 hlt hok₂.zero_not_mem
  · intro v hv _
    exact (congrFun hbound v).trans (h.unbound v hv)
  · intro v hcap hdef hne
    obtain ⟨l, hl0, hl⟩ := hdef
    exact hpre v (hmem v (howner v l hl) hcap) (by rw [hl]; exact hl0) hne
  · intro v _ hz
    exact hlate v hz
  · intro v hv hk
    obtain ⟨⟨l, -, hl⟩, -⟩ := hk
    have := howner v l hl
    omega
  · have := hok.startLe
    exact this.trans (Nat.le_add_right _ 2)

/- Between two blocks. -/

/-- A value of the entry block, or of what stands before it. -/
def IsBase (d : Dispatch) (bbs : List AirBb) (v : Nat) : Prop :=
  v < d.ctx.layout.instIdBase ∨ d.defBb bbs v = some 0

/-- What holds outside the blocks. `c₁`: the context after the entry block. -/
structure Between (d : Dispatch) (bbs : List AirBb) (ι : Nat) (fin c₁ : DispatchCtx)
    (num : Nat → V) (γ : Ghost V Mem) (st : State V Mem) : Prop where
  base : ∀ v x, IsBase d bbs v → γ.env v = some x →
    c₁.bound v ≠ 0 ∧ st.env (c₁.bound v) = x
  spilled : ∀ v x, d.Kept bbs v → γ.env v = some x → st.io (fin.spillVar v) = x
  consts : ∀ k, UsesConst bbs k → st.env (d.const k) = num k
  mem : st.mem = γ.mem
  phis : ∀ p ∈ γ.due, ∀ x, γ.phi p = some x → st.io (fin.phiVar p.1) = x
  iter : st.io ι = num γ.iter

theorem IsBase.not_crosses (h : IsBase d bbs v) (cur : Nat) : d.crosses bbs cur v = false := by
  rw [crosses]
  rcases h with h | h
  · rw [decide_eq_false (Nat.not_le.mpr h), Bool.false_and]
  · rw [h]
    simp

theorem At.between (hst : At d bbs ι fin num c n γ st) (hg : c₁.Grows c)
    (hbase : ∀ v x, IsBase d bbs v → γ.env v = some x → v < n ∧ c₁.bound v ≠ 0) :
    Between d bbs ι fin c₁ num γ st where
  base := by
    intro v x hv hx
    obtain ⟨hn, hb⟩ := hbase v x hv hx
    rw [← hg.bound v hb]
    exact hst.direct v x (hv.not_crosses _) hn hx
  spilled := hst.spilled
  consts := hst.consts
  mem := hst.mem
  phis := hst.phis
  iter := hst.iter

/-- At the start of a block, the values it can read without a variable are those of the
entry. -/
theorem Between.enter (h : Between d bbs ι fin c₁ num γ st) (hd : d.Numbered bbs m) {b : AirBb}
    (hs : d.Starts bbs start β ι c n b) (hg : c₁.Grows c) :
    At d bbs ι fin num c n γ st where
  direct := by
    intro v x hv hn hx
    have hbase : IsBase d bbs v := by
      by_cases hlow : v < d.ctx.layout.instIdBase
      · exact .inl hlow
      · have hm : v < m := hn.trans_le (hs.counts.le.trans (hs.term_le hd))
        obtain ⟨k, hk⟩ := owns_of_lt hd.counts (Nat.not_lt.mp hlow) hm
        have hdef := hd.defBb_eq_some.mpr hk
        rw [crosses, hdef, decide_eq_true (Nat.not_lt.mp hlow), Bool.true_and,
          Bool.and_eq_false_iff] at hv
        rcases hv with hv | hv
        · have hk0 : k = 0 := by simpa using hv
          rw [hk0] at hdef
          exact .inr hdef
        · have hkc : k = c.curBb := by simpa using hv
          -- the block's own values have numbers from `n` on
          obtain ⟨b', p, hb', hp, rfl, -⟩ := hk
          rw [hkc, hs.block] at hb'
          cases hb'
          exact absurd (hs.counts.ge_of_mem hp) (by omega)
    obtain ⟨hb, henv⟩ := h.base v x hbase hx
    rw [hg.bound v hb]
    exact ⟨hb, henv⟩
  spilled := h.spilled
  consts := h.consts
  mem := h.mem
  phis := h.phis
  iter := h.iter

/-- The labels do not show in what holds. -/
theorem Between.label (h : Between d bbs ι fin c₁ num γ st) (cur prev : Nat) :
    Between d bbs ι fin c₁ num γ { st with cur := cur, prev := prev } :=
  ⟨h.base, h.spilled, h.consts, h.mem, h.phis, h.iter⟩

theorem Between.set (h : Between d bbs ι fin c₁ num γ st) (hok : c₁.Ok start β ι)
    (hconst : ∀ k, UsesConst bbs k → d.const k < start) (id : Nat) (hid : c₁.nextId ≤ id) (y : V) :
    Between d bbs ι fin c₁ num γ (st.set id y) where
  base := by
    intro v x hv hx
    have := hok.boundLt v
    rw [st.set_lt y (by omega)]
    exact h.base v x hv hx
  spilled := h.spilled
  consts := by
    intro k hk
    have := hconst k hk
    have := hok.startLe
    rw [st.set_lt y (by omega)]
    exact h.consts k hk
  mem := h.mem
  phis := h.phis
  iter := h.iter

/-- The loop counts. -/
theorem Between.count (h : Between d bbs ι fin c₁ num γ st) (hfin : fin.Ok start β ι)
    (hι : ι ≠ 0) (i : Nat) :
    Between d bbs ι fin c₁ num { γ with iter := i } (st.put ι (num i)) where
  base := h.base
  spilled := by
    intro v x hv hx
    rw [State.put_ne]
    · exact h.spilled v x hv hx
    · intro heq
      cases hfin.inj .iter (.spill v) hι heq.symm
  consts := h.consts
  mem := h.mem
  phis := by
    intro p hp x hx
    rw [State.put_ne]
    · exact h.phis p hp x hx
    · intro heq
      cases hfin.inj .iter (.phi p.1) hι heq.symm
  iter := State.put_self _ _ _

/-- The header: counts, and goes on to the switch as long as the count allows. -/
theorem headerBlock_runs (w : World d bbs start β ι fin T) (hctl : T.Control A num bool)
    (hok : c₁.Ok start β ι) (hg : c₁.Grows fin) (hβ : β ≠ 0) (hι : ι ≠ 0) {h j : Nat}
    (hh : c₁.nextId ≤ h) (hst : Between d bbs ι fin c₁ num γ st) (hj : st.io β = num j)
    (hi : γ.iter < 65536) (htwo : 1 < bbs.length) :
    Jumps T.exec (d.headerBlock l h β ι).insns (if γ.iter+1 < 65536 then l.body else l.exit)
      (fun t => Between d bbs ι fin c₁ num { γ with iter := γ.iter+1 } t ∧ t.env h = num j) st := by
  have hmemβ : β ∈ T.iface := w.iface_mem (hok.cellMem .block hβ) hg
  have hmemι : ι ∈ T.iface := w.iface_mem (hok.cellMem .iter hι) hg
  rw [headerBlock]
  refine .cons (T.exec_load hmemβ st) (.cons (T.exec_load hmemι _) ?_)
  rw [State.set_io]
  have hb₂ := (hst.set hok w.const h hh (st.io β)).set hok w.const (h+1) (by omega) (st.io ι)
  have hcur : ((st.set h (st.io β)).set (h+1) (st.io ι)).env h = num j := by
    rw [State.set_lt _ _ (Nat.lt_succ_self h), State.set_self, hj]
  have hcount : ((st.set h (st.io β)).set (h+1) (st.io ι)).env (h+1) = num γ.iter := by
    rw [State.set_self, hst.iter]
  generalize (st.set h (st.io β)).set (h+1) (st.io ι) = s₂ at *
  refine .cons (hctl.add _ _ _ _ _ γ.iter 1 hcount (hb₂.consts 1 (.inl htwo))) ?_
  rw [Nat.mod_eq_of_lt (by omega)]
  have hb₃ := hb₂.set hok w.const (h+2) (by omega) (num (γ.iter+1))
  have hsum : (s₂.set (h+2) (num (γ.iter+1))).env (h+2) = num (γ.iter+1) := s₂.set_self _ _
  have hcur₃ : (s₂.set (h+2) (num (γ.iter+1))).env h = num j := by
    rw [State.set_lt _ _ (by omega), hcur]
  generalize s₂.set (h+2) (num (γ.iter+1)) = s₃ at *
  refine .cons (T.exec_store hmemι s₃) ?_
  rw [hsum]
  have hb₄ := hb₃.count w.final hι (γ.iter+1)
  generalize hs₄ : s₃.put ι (num (γ.iter+1)) = s₄ at *
  have henv : s₄.env = s₃.env := by
    rw [← hs₄]
    rfl
  refine .cons (hctl.less _ _ _ _ s₄ (γ.iter+1) dispatchMaxIters ?_ (hb₄.consts _ (.inr rfl))
    (by omega) (by decide)) ?_
  · rw [henv, hsum]
  · have hb₅ := hb₄.set hok w.const (h+3) (by omega)
      (bool (decide (γ.iter+1 < dispatchMaxIters)))
    refine .cons (hctl.loopMerge _ _ _) (jumps_single ?_ ⟨hb₅, ?_⟩)
    · rw [hctl.branchIf, State.set_self, hctl.truth]
      simp only [decide_eq_true_eq]
      rfl
    · rw [State.set_lt _ _ (by omega), henv, hcur₃]

/-- The pairs of the switch. -/
def switchPairs (l : Labels) (nbb : Nat) : List (Nat × Nat) :=
  (List.range (nbb-1)).map fun k => (k+1, l.bb (k+1))

theorem find?_switchPairs {nbb j : Nat} (h0 : 0 < j) (hj : j < nbb) :
    (switchPairs l nbb).find? (·.1 == j) = some (j, l.bb j) := by
  have hsome : ((switchPairs l nbb).find? (·.1 == j)).isSome = true := by
    rw [List.find?_isSome]
    refine ⟨(j-1+1, l.bb (j-1+1)), List.mem_map.mpr ⟨j-1, List.mem_range.mpr (by omega), rfl⟩, ?_⟩
    rw [Nat.sub_add_cancel h0]
    exact beq_self_eq_true j
  obtain ⟨p, hp⟩ := Option.isSome_iff_exists.mp hsome
  obtain ⟨k, -, rfl⟩ := List.mem_map.mp (List.mem_of_find?_eq_some hp)
  have hk : k+1 = j := by simpa using List.find?_some hp
  rw [hp, hk]

theorem bodyBlock_runs (hctl : T.Control A num bool) {cur nbb j : Nat} (h0 : 0 < j)
    (hj : j < nbb) (hnbb : nbb ≤ 65535) (hcur : st.env cur = num j) :
    Jumps T.exec (bodyBlock l cur nbb).insns (l.bb j) (fun t => t = st) st := by
  rw [bodyBlock]
  refine .cons (hctl.selectionMerge _ st) (jumps_single ?_ rfl)
  have hsw := hctl.switch cur l.selmerge (switchPairs l nbb) st j hcur (by omega)
  rw [find?_switchPairs h0 hj, switchPairs, List.flatMap_map] at hsw
  exact hsw

end Dispatch

end Lagfx.Spirv
