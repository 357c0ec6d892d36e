import Lagfx.DispatchContext
import Lagfx.Lib.Landing

/-! What the emitted code does where an AIR instruction is executed: operands, results and
their variables, the PHIs of an edge. -/
namespace Lagfx.Spirv
open Ssa Bits
variable {V Mem : Type}

/- Where the code runs. The variables of the lowering are `iface`, cells of their own. -/
structure Target (V Mem : Type) where
  g : Grammar
  I : Interp V Mem
  call : Nat → List V → Mem → (Nat → V) → Option (Exit V Mem)
  iface : List Nat

def Target.exec (T : Target V Mem) : Insn → State V Mem → Step (State V Mem) (Exit V Mem) :=
  execInsn T.g T.I T.call T.iface

def State.set (st : State V Mem) (id : Nat) (x : V) : State V Mem :=
  { st with env := Function.update st.env id x }

def State.put (st : State V Mem) (var : Nat) (x : V) : State V Mem :=
  { st with io := Function.update st.io var x }

/-- The instructions the lowering itself emits, as SPIR-V defines them. `num` and `bool`: the
values of 32-bit constants and of comparisons. -/
structure Target.Control (T : Target V Mem) (A : AirInterp V Mem) (num : Nat → V)
    (bool : Bool → V) : Prop where
  truth : ∀ b, A.truth (bool b) = b
  branch : ∀ l st, T.exec (Dispatch.opBranch l) st = .jump l st
  branchIf : ∀ c a b st,
    T.exec ⟨.other 250, [c, a, b]⟩ st = .jump (if A.truth (st.env c) then a else b) st
  switch : ∀ s l (ps : List (Nat × Nat)) st n, st.env s = num n → n < 2^32 →
    T.exec ⟨.other 251, s :: l :: ps.flatMap fun p => [p.1, p.2]⟩ st =
      .jump (((ps.find? (·.1 == n)).map (·.2)).getD l) st
  select : ∀ ty id c a b st, T.exec (Dispatch.opSelect ty id c a b) st =
    .next (st.set id (if A.truth (st.env c) then st.env a else st.env b))
  equal : ∀ ty id a b st, T.exec (Dispatch.opIEqual ty id a b) st =
    .next (st.set id (bool (A.same (st.env a) (st.env b))))
  add : ∀ ty id a b st m n, st.env a = num m → st.env b = num n →
    T.exec ⟨.other 128, [ty, id, a, b]⟩ st = .next (st.set id (num ((m+n) % 2^32)))
  less : ∀ ty id a b st m n, st.env a = num m → st.env b = num n → m < 2^32 → n < 2^32 →
    T.exec ⟨.other 176, [ty, id, a, b]⟩ st = .next (st.set id (bool (decide (m < n))))
  loopMerge : ∀ a b st, T.exec ⟨.other 246, [a, b, 0]⟩ st = .next st
  selectionMerge : ∀ l st, T.exec ⟨.other 247, [l, 0]⟩ st = .next st
  var : ∀ ty id st, ∃ x, T.exec ⟨.var, [ty, id, 7]⟩ st = .next (st.set id x)

/-- Operands an emitter may be given from `next` on. -/
structure Target.Operands (T : Target V Mem) (next width : Nat) (ids : List Nat) : Prop where
  id : ∀ x ∈ ids, x ≠ 0 ∧ x < next ∧ x ∉ T.iface
  room : ∀ x ∈ T.iface, x < next ∨ next+width ≤ x

/-- What the emitters are to do: the code of an instruction computes its value from those of
the operands, in ids of its own. -/
structure Dispatch.Emits (d : Dispatch) (A : AirInterp V Mem) (T : Target V Mem) : Prop where
  exec : ∀ p next ids (st : State V Mem) x mem, Dispatch.handled p.2.code = true →
    T.Operands next (d.emit p next ids).width ids →
    A.exec p.2 (ids.map st.env) st.mem = some (x, mem) →
    Lands T.exec (d.emit p next ids).code (fun t => t.mem = mem ∧ t.io = st.io ∧
      (∀ y < next, t.env y = st.env y) ∧
        (d.produces p = true → t.env (d.emit p next ids).val = x)) st
  ret : ∀ p next ids (st : State V Mem), p.2.code = .ret →
    T.Operands next (d.emit p next ids).width ids →
    runInsns T.exec (d.emit p next ids).code st = .exit (.returned
      (A.ret p.2 (ids.map st.env) st.mem).1 (A.ret p.2 (ids.map st.env) st.mem).2 st.io)

theorem Target.exec_load (T : Target V Mem) {ty id var : Nat} (h : var ∈ T.iface)
    (st : State V Mem) : T.exec (opLoad ty id var) st = .next (st.set id (st.io var)) := by
  simp [Target.exec, execInsn, opLoad, Insn.arg, h, Insn.result, bindResult, State.set]

theorem Target.exec_store (T : Target V Mem) {id var : Nat} (h : var ∈ T.iface)
    (st : State V Mem) : T.exec (opStore var id) st = .next (st.put var (st.env id)) := by
  simp [Target.exec, execInsn, opStore, Insn.arg, h, State.put]

@[simp] theorem State.set_io (st : State V Mem) (id : Nat) (x : V) : (st.set id x).io = st.io := rfl
@[simp] theorem State.set_mem (st : State V Mem) (id : Nat) (x : V) :
    (st.set id x).mem = st.mem := rfl
@[simp] theorem State.put_env (st : State V Mem) (v : Nat) (x : V) :
    (st.put v x).env = st.env := rfl
@[simp] theorem State.put_mem (st : State V Mem) (v : Nat) (x : V) :
    (st.put v x).mem = st.mem := rfl

theorem State.set_self (st : State V Mem) (id : Nat) (x : V) : (st.set id x).env id = x :=
  Function.update_self ..

theorem State.set_lt (st : State V Mem) {id y : Nat} (x : V) (h : y < id) :
    (st.set id x).env y = st.env y := Function.update_of_ne (by omega) _ _

theorem State.put_self (st : State V Mem) (v : Nat) (x : V) : (st.put v x).io v = x :=
  Function.update_self ..

theorem State.put_ne (st : State V Mem) {v w : Nat} (x : V) (h : w ≠ v) :
    (st.put v x).io w = st.io w := Function.update_of_ne h _ _

namespace Dispatch
/- What the source run has reached, for the target to be compared with. `due`: the PHIs
   whose variables hold the values of the edge. `iter`: what the loop has counted. -/
structure Ghost (V Mem : Type) where
  env : Nat → Option V
  mem : Mem
  due : List (Nat × XlateInst)
  phi : Nat × XlateInst → Option V
  iter : Nat

/-- The source binds a value. -/
def Ghost.set (γ : Ghost V Mem) (n : Nat) (x : V) : Ghost V Mem :=
  { γ with env := Function.update γ.env n (some x) }

theorem Ghost.set_self {γ : Ghost V Mem} {n : Nat} {x y : V} (h : (γ.set n x).env n = some y) :
    x = y := by
  have hself : (γ.set n x).env n = some x := Function.update_self ..
  rw [hself] at h
  exact Option.some.inj h

theorem Ghost.set_ne (γ : Ghost V Mem) {n u : Nat} (x : V) (h : u ≠ n) :
    (γ.set n x).env u = γ.env u := Function.update_of_ne h _ _

/-- The constants the lowering names: the blocks and the cap. -/
def UsesConst (bbs : List AirBb) (k : Nat) : Prop := k < bbs.length ∨ k = dispatchMaxIters

section
variable (d : Dispatch) (bbs : List AirBb) (ι : Nat) (fin : DispatchCtx) (num : Nat → V)

/-- The target's state at number `n` of the code emitted from `c` on. `fin`: the context
after the last block. -/
structure At (c : DispatchCtx) (n : Nat) (γ : Ghost V Mem) (st : State V Mem) : Prop where
  direct : ∀ v x, d.crosses bbs c.curBb v = false → v < n → γ.env v = some x →
    c.bound v ≠ 0 ∧ st.env (c.bound v) = x
  spilled : ∀ v x, d.Kept bbs v → γ.env v = some x → st.io (fin.spillVar v) = x
  consts : ∀ k, UsesConst bbs k → st.env (d.const k) = num k
  mem : st.mem = γ.mem
  phis : ∀ p ∈ γ.due, ∀ x, γ.phi p = some x → st.io (fin.phiVar p.1) = x
  iter : st.io ι = num γ.iter

end

variable {d : Dispatch} {bbs : List AirBb} {start β ι n k v : Nat} {fin c c' : DispatchCtx}
variable {num : Nat → V} {γ : Ghost V Mem} {st t : State V Mem} {T : Target V Mem}

/-- New ids do not disturb what was reached. -/
theorem At.frame (h : At d bbs ι fin num c n γ st) (c' : DispatchCtx) (hok : c.Ok start β ι)
    (hconst : ∀ k, UsesConst bbs k → d.const k < start) (hlow : ∀ y < c.nextId, t.env y = st.env y)
    (hio : t.io = st.io) (hcur : c'.curBb = c.curBb)
    (hbound : ∀ v, v < n → c.bound v ≠ 0 → c'.bound v = c.bound v) {mem : Mem}
    (hmem : t.mem = mem) : At d bbs ι fin num c' n { γ with mem := mem } t where
  direct := by
    intro v x hv hn hx
    rw [hcur] at hv
    obtain ⟨hb, he⟩ := h.direct v x hv hn hx
    rw [hbound v hn hb, hlow _ (hok.boundLt v)]
    exact ⟨hb, he⟩
  spilled := by
    intro v x hv hx
    rw [hio]
    exact h.spilled v x hv hx
  consts := by
    intro k hk
    rw [hlow _ ((hconst k hk).trans_le hok.startLe)]
    exact h.consts k hk
  mem := hmem
  phis := by
    intro p hp x hx
    rw [hio]
    exact h.phis p hp x hx
  iter := by
    rw [hio]
    exact h.iter

/-- The lowering's own assumptions on ids. -/
structure World (d : Dispatch) (bbs : List AirBb) (start β ι : Nat) (fin : DispatchCtx)
    (T : Target V Mem) : Prop where
  iface : T.iface = fin.vars
  final : fin.Ok start β ι
  const : ∀ k, UsesConst bbs k → d.const k < start

theorem World.iface_mem (w : World d bbs start β ι fin T) {x : Nat} (h : x ∈ c.vars)
    (hg : c.Grows fin) : x ∈ T.iface := by
  rw [w.iface]
  exact hg.keeps x h

theorem World.spillVar_mem (w : World d bbs start β ι fin T) (h : d.Reached bbs start β ι n k c)
    (hg : c.Grows fin) (hv : c.spillVar v ≠ 0) : c.spillVar v ∈ T.iface :=
  w.iface_mem (h.ok.cellMem (.spill v) hv) hg

theorem World.phiVar_mem (w : World d bbs start β ι fin T) (h : d.Reached bbs start β ι n k c)
    (hg : c.Grows fin) (hv : c.phiVar v ≠ 0) : c.phiVar v ∈ T.iface :=
  w.iface_mem (h.ok.cellMem (.phi v) hv) hg

/- Operands. -/

/-- Where a piece of code has run: `γ` is reached, and the ids from before are as they were. -/
structure Undisturbed (d : Dispatch) (bbs : List AirBb) (ι : Nat) (fin c c' : DispatchCtx)
    (num : Nat → V) (n : Nat) (γ : Ghost V Mem) (s t : State V Mem) : Prop where
  at_ : At d bbs ι fin num c' n γ t
  low : ∀ y < c.nextId, t.env y = s.env y

theorem resolve_runs (w : World d bbs start β ι fin T) (h : d.Reached bbs start β ι n k c)
    (hv : d.Reads bbs c n v) (hg : (d.resolve bbs c v).ctx.Grows fin)
    (hst : At d bbs ι fin num c n γ st) :
    Lands T.exec (d.resolve bbs c v).code (fun t =>
      Undisturbed d bbs ι fin c (d.resolve bbs c v).ctx num n γ st t ∧
      ∀ x, γ.env v = some x → (d.resolve bbs c v).val ≠ 0 ∧ t.env (d.resolve bbs c v).val = x)
      st := by
  rw [resolve_eq hv] at hg ⊢
  obtain ⟨hcap, hv⟩ := hv
  cases hc : d.crosses bbs c.curBb v with
  | false =>
    rw [hc, if_neg Bool.false_ne_true] at hv
    exact lands_nil ⟨⟨hst, fun _ _ => rfl⟩, fun x hx => hst.direct v x hc hv hx⟩
  | true =>
    rw [hc, if_pos rfl] at hv hg
    have hgc : c.Grows fin := DispatchCtx.grows_fresh.trans hg
    have hmem := w.spillVar_mem h hgc hv.2
    have hlow : ∀ y < c.nextId, (st.set c.nextId (st.io (c.spillVar v))).env y = st.env y :=
      fun y hy => st.set_lt _ hy
    have hat : At d bbs ι fin num c.fresh n γ (st.set c.nextId (st.io (c.spillVar v))) :=
      hst.frame c.fresh h.ok w.const hlow rfl rfl (fun _ _ _ => rfl) hst.mem
    refine lands_single (T.exec_load hmem st) ⟨⟨hat, hlow⟩, ?_⟩
    intro x hx
    refine ⟨h.ok.next_pos.ne', ?_⟩
    change (st.set c.nextId (st.io (c.spillVar v))).env c.nextId = x
    rw [st.set_self, ← (hgc.spillVar v hv.2).1]
    exact hst.spilled v x hv.1 hx

theorem Undisturbed.trans {c₂ : DispatchCtx} {γ' : Ghost V Mem} {u : State V Mem}
    (hg : c.Grows c') (h : Undisturbed d bbs ι fin c c' num n γ st t)
    (h' : Undisturbed d bbs ι fin c' c₂ num n γ' t u) :
    Undisturbed d bbs ι fin c c₂ num n γ' st u where
  at_ := h'.at_
  low := by
    intro y hy
    rw [h'.low y (hy.trans_le hg.next), h.low y hy]

theorem resolveAll_runs (w : World d bbs start β ι fin T) {vs : List Nat}
    (h : d.Reached bbs start β ι n k c) (hv : ∀ v ∈ vs, d.Reads bbs c n v)
    (hg : (resolveAll (d.resolve bbs) c vs).ctx.Grows fin) (hst : At d bbs ι fin num c n γ st) :
    Lands T.exec (resolveAll (d.resolve bbs) c vs).code (fun t =>
      Undisturbed d bbs ι fin c (resolveAll (d.resolve bbs) c vs).ctx num n γ st t ∧
      ∀ xs, readAll γ.env vs = some xs → (∀ y ∈ (resolveAll (d.resolve bbs) c vs).val, y ≠ 0) ∧
        (resolveAll (d.resolve bbs) c vs).val.map t.env = xs) st := by
  induction vs generalizing c st with
  | nil =>
    refine lands_nil ⟨⟨hst, fun _ _ => rfl⟩, ?_⟩
    intro xs hxs
    cases hxs
    simp [resolveAll]
  | cons v vs ih =>
    have hhead := hv v List.mem_cons_self
    obtain ⟨hl, hplain⟩ := resolve_leaves h hhead
    have htail : ∀ u ∈ vs, d.Reads bbs (d.resolve bbs c v).ctx n u := fun u hu =>
      (hv u (List.mem_cons_of_mem v hu)).extends hl.ext
    obtain ⟨hl', -⟩ := resolveAll_leaves hl.reached htail
    refine (resolve_runs w h hhead (hl'.ext.toGrows.trans hg) hst).append ?_
    intro t ht
    refine (ih hl.reached htail hg ht.1.at_).imp ?_
    intro u hu
    refine ⟨ht.1.trans hl.ext.toGrows hu.1, ?_⟩
    intro xs hxs
    obtain ⟨x, hx, hxs⟩ := Option.bind_eq_some_iff.mp hxs
    obtain ⟨ys, hys, rfl⟩ := Option.map_eq_some_iff.mp hxs
    obtain ⟨hne, hval⟩ := ht.2 x hx
    obtain ⟨hne', hvals⟩ := hu.2 ys hys
    refine ⟨?_, ?_⟩
    · intro y hy
      rcases List.mem_cons.mp hy with rfl | hy
      · exact hne
      · exact hne' y hy
    · rw [resolveAll, List.map_cons, hvals, hu.1.low _ hplain.1, hval]

theorem llvmOperand_eq {enc : Nat} (h : enc ≤ n) (hn : n < 2^32) :
    llvmOperand enc n = resolveRelative enc n := by
  rw [resolveRelative, if_pos h, llvmOperand]
  omega

/-- The operands of an AIR instruction are those the emitter resolves. -/
theorem readOperands_eq {p : Nat × XlateInst} {env : Nat → Option V} (hn : p.1 < 2^32)
    (ho : ∀ o ∈ d.operands p.2, d.OperandOk bbs k p.1 o) :
    d.readOperands p env = readAll env ((d.operands p.2).map (resolveRelative · p.1)) := by
  rw [readOperands]
  congr 1
  refine List.map_congr_left ?_
  intro o hmem
  exact llvmOperand_eq (ho o hmem).2.1 hn

theorem operandIds_leaves {p : Nat × XlateInst} (h : d.Reached bbs start β ι p.1 p.1 c)
    (hops : ∀ o ∈ d.operands p.2, d.OperandOk bbs c.curBb p.1 o) :
    d.Leaves bbs start β ι c (d.operandIds bbs c p).ctx p.1 p.1 ∧
      ∀ y ∈ (d.operandIds bbs c p).val, Plain (d.operandIds bbs c p).ctx y :=
  resolveAll_leaves h (h.operands hops)

theorem operandIds_runs (w : World d bbs start β ι fin T) {p : Nat × XlateInst} {vals : List V}
    (h : d.Reached bbs start β ι p.1 p.1 c) (hn : p.1 < 2^32)
    (hops : ∀ o ∈ d.operands p.2, d.OperandOk bbs c.curBb p.1 o)
    (hg : (d.operandIds bbs c p).ctx.Grows fin) (hst : At d bbs ι fin num c p.1 γ st)
    (hvals : d.readOperands p γ.env = some vals) :
    Lands T.exec (d.operandIds bbs c p).code (fun t =>
      Undisturbed d bbs ι fin c (d.operandIds bbs c p).ctx num p.1 γ st t ∧
      (∀ y ∈ (d.operandIds bbs c p).val, y ≠ 0) ∧
        (d.operandIds bbs c p).val.map t.env = vals) st := by
  rw [readOperands_eq hn hops] at hvals
  exact (resolveAll_runs w h (h.operands hops) hg hst).imp fun t ht => ⟨ht.1, ht.2 vals hvals⟩

/-- The resolved operands suit an emitter that takes the next ids. -/
theorem World.operands (w : World d bbs start β ι fin T) {ids : List Nat} {width v id : Nat}
    (hok : c.Ok start β ι) (hg : (c.take width v id).Grows fin) (hgc : c.Grows fin)
    (hplain : ∀ y ∈ ids, Plain c y) (hne : ∀ y ∈ ids, y ≠ 0) :
    T.Operands c.nextId width ids where
  id := by
    intro y hy
    rw [w.iface]
    exact ⟨hne y hy, (hplain y hy).1, (hplain y hy).2 fin hgc⟩
  room := by
    intro y hy
    rw [w.iface] at hy
    exact (hg.vars y hy).imp_left fun hy => (hok.varLt y hy).2

/- Results. -/

/-- The value `x` of number `n` stands in the id it is bound to. -/
def Holds (c : DispatchCtx) (n : Nat) (x : V) (t : State V Mem) : Prop :=
  c.bound n ≠ 0 ∧ t.env (c.bound n) = x

/-- A store to the variable of a value. -/
theorem At.putSpill (w : World d bbs start β ι fin T) (hst : At d bbs ι fin num c n γ st) {x : V}
    (hvar : fin.spillVar n ≠ 0) (hholds : Holds c n x st) :
    At d bbs ι fin num c (n+1) (γ.set n x)
      (st.put (fin.spillVar n) x) where
  direct := by
    intro u y hu hun hy
    rw [State.put_env]
    by_cases hne : u = n
    · rw [hne] at hy ⊢
      rw [← Ghost.set_self hy]
      exact hholds
    · rw [γ.set_ne x hne] at hy
      exact hst.direct u y hu (by omega) hy
  spilled := by
    intro u y hu hy
    by_cases hne : u = n
    · rw [hne] at hy ⊢
      rw [State.put_self, Ghost.set_self hy]
    · rw [γ.set_ne x hne] at hy
      rw [State.put_ne]
      · exact hst.spilled u y hu hy
      · intro heq
        have := w.final.inj (.spill n) (.spill u) hvar heq.symm
        cases this
        exact hne rfl
  consts := hst.consts
  mem := hst.mem
  phis := by
    intro p hp y hy
    rw [State.put_ne]
    · exact hst.phis p hp y hy
    · intro heq
      cases w.final.inj (.spill n) (.phi p.1) hvar heq.symm
  iter := by
    rw [State.put_ne]
    · exact hst.iter
    · intro heq
      cases w.final.inj (.spill n) .iter hvar heq.symm

/-- A value that has no variable, or none that has to hold it. -/
theorem At.result (hst : At d bbs ι fin num c n γ st) {x : V} (hkept : ¬ d.Kept bbs n)
    (hholds : Holds c n x st) :
    At d bbs ι fin num c (n+1) (γ.set n x) st where
  direct := by
    intro u y hu hun hy
    by_cases hne : u = n
    · rw [hne] at hy ⊢
      rw [← Ghost.set_self hy]
      exact hholds
    · rw [γ.set_ne x hne] at hy
      exact hst.direct u y hu (by omega) hy
  spilled := by
    intro u y hu hy
    have hne : u ≠ n := by
      rintro rfl
      exact hkept hu
    rw [γ.set_ne x hne] at hy
    exact hst.spilled u y hu hy
  consts := hst.consts
  mem := hst.mem
  phis := hst.phis
  iter := hst.iter

theorem At.sameBound (hst : At d bbs ι fin num c n γ st) (hbound : c'.bound = c.bound)
    (hcur : c'.curBb = c.curBb) : At d bbs ι fin num c' n γ st where
  direct := by
    intro u y hu hun hy
    rw [hcur] at hu
    rw [hbound]
    exact hst.direct u y hu hun hy
  spilled := hst.spilled
  consts := hst.consts
  mem := hst.mem
  phis := hst.phis
  iter := hst.iter

theorem dispatchSpillResult_bound (c : DispatchCtx) (v : Nat) :
    (d.dispatchSpillResult c v).2.bound = c.bound ∧
      (d.dispatchSpillResult c v).2.curBb = c.curBb := by
  rw [dispatchSpillResult]
  split
  · exact ⟨rfl, rfl⟩
  · split
    · split <;> exact ⟨rfl, rfl⟩
    · split <;> exact ⟨rfl, rfl⟩

/-- What a spill emits: the store to the variable the value has in the end, or nothing for a
value that is not kept. -/
theorem dispatchSpillResult_code (h : d.Reached bbs start β ι (v+1) v c)
    (hcap : v < d.ctx.valueIdCapacity) (hbound : c.bound v ≠ 0)
    (hown : ∃ l, l ≠ 0 ∧ d.defBb bbs v = some l) :
    (d.dispatchSpillResult c v).1 =
        [opStore ((d.dispatchSpillResult c v).2.spillVar v) (c.bound v)] ∧
      (d.dispatchSpillResult c v).2.spillVar v ≠ 0 ∨
    (d.dispatchSpillResult c v).1 = [] ∧ ¬ d.Kept bbs v := by
  rw [dispatchSpillResult, if_neg (by simp [hbound, hcap])]
  by_cases hv : c.spillVar v = 0
  · rw [if_neg (not_not.mpr hv)]
    have hpre : d.preType v = 0 := by
      by_contra hne
      exact (h.pre v hcap hown hne).1 hv
    by_cases hsite : d.siteType v = 0
    · rw [if_pos hsite]
      refine .inr ⟨rfl, fun hk => ?_⟩
      have := hk.2.2
      rw [if_neg (not_not.mpr hpre)] at this
      exact this hsite
    · rw [if_neg hsite]
      have hself := (c.spillAt_self (d.siteType v) (d.ptrId (d.siteType v)) v).1
      refine .inl ⟨?_, ?_⟩
      · rw [hself]
      · rw [hself]
        exact h.ok.next_pos.ne'
  · rw [if_pos hv]
    split
    · exact .inl ⟨rfl, hv⟩
    · next htype =>
      refine .inr ⟨rfl, fun hk => htype ?_⟩
      have hpre : d.preType v ≠ 0 := fun hz => hv (h.late v (Nat.le_refl v) hz)
      have := hk.2.2
      rw [if_pos hpre] at this
      exact ⟨this ▸ hpre, this.trans (h.pre v hcap hown hpre).2.symm⟩

theorem dispatchSpillResult_runs (w : World d bbs start β ι fin T)
    (h : d.Reached bbs start β ι (v+1) v c) (hcap : v < d.ctx.valueIdCapacity)
    (hown : ∃ l, l ≠ 0 ∧ d.defBb bbs v = some l)
    (hg : (d.dispatchSpillResult c v).2.Grows fin) {x : V}
    (hst : At d bbs ι fin num c v γ st) (hx : Holds c v x st) :
    Lands T.exec (d.dispatchSpillResult c v).1 (At d bbs ι fin num (d.dispatchSpillResult c v).2
      (v+1) (γ.set v x)) st := by
  obtain ⟨hb, hcur⟩ := dispatchSpillResult_bound (d := d) c v
  have hl := dispatchSpillResult_leaves h hcap hx.1 hown
  rcases dispatchSpillResult_code h hcap hx.1 hown with ⟨hcode, hne⟩ | ⟨hcode, hk⟩
  · rw [hcode]
    have hvar := (hg.spillVar v hne).1
    refine lands_single (T.exec_store (w.spillVar_mem hl.reached hg hne) st) ?_
    rw [hx.2, ← hvar]
    exact (hst.putSpill w (by rw [hvar]; exact hne) hx).sameBound hb hcur
  · rw [hcode]
    exact lands_nil ((hst.result hk hx).sameBound hb hcur)

/- Blocks. -/

variable {A : AirInterp V Mem}

theorem airInst_handled {φ : Nat × XlateInst → Option V} {p : Nat × XlateInst}
    {s s' : AirState V Mem} (hc : handled p.2.code = true)
    (h : d.airInst A φ p s = some s') :
    ∃ vals x, d.readOperands p s.env = some vals ∧ A.exec p.2 vals s.mem = some (x, s'.mem) ∧
      s'.env = if d.produces p then Function.update s.env p.1 (some x) else s.env := by
  have hphi := not_phi_of_handled hc
  have hdecl : p.2.code ≠ .declareblocks := by
    intro hd
    rw [hd] at hc
    cases hc
  rw [airInst] at h
  split at h
  · next hd => exact absurd hd hdecl
  · next hp => exact absurd hp hphi
  · split at h
    · cases h
    · next vals hvals =>
      obtain ⟨r, hr, rfl⟩ := Option.map_eq_some_iff.mp h
      exact ⟨vals, r.1, hvals, hr, rfl⟩

/-- What holds after the code of `p`, before its result is spilled. -/
def Emits.After (d : Dispatch) (bbs : List AirBb) (ι : Nat) (fin c : DispatchCtx) (num : Nat → V)
    (p : Nat × XlateInst) (γ : Ghost V Mem) (s : AirState V Mem) (t : State V Mem) : Prop :=
  At d bbs ι fin num c p.1 { γ with mem := s.mem } t ∧
    if d.produces p then ∃ x, s.env = Function.update γ.env p.1 (some x) ∧ Holds c p.1 x t
    else s.env = γ.env

theorem emitInst_runs_phi {p : Nat × XlateInst} {s : AirState V Mem}
    (w : World d bbs start β ι fin T)
    (h : d.Reached bbs start β ι p.1 p.1 c) (hc : p.2.code = .phi) (hops : 0 < p.2.ops.length)
    (hbase : d.ctx.layout.instIdBase ≤ p.1) (hcap : p.1 < d.ctx.valueIdCapacity)
    (hdue : p ∈ γ.due) (hg : (d.emitInst bbs c p).2.Grows fin)
    (hst : At d bbs ι fin num c p.1 γ st)
    (hs : d.airInst A γ.phi p ⟨γ.env, γ.mem⟩ = some s) :
    Lands T.exec (d.emitInst bbs c p).1
      (Emits.After d bbs ι fin (d.emitInst bbs c p).2 num p γ s) st := by
  obtain ⟨hl, hv, hvar, -⟩ := dispatchPhiVar_leaves h (d.airTypeId (opAt p.2 0)) hcap
  rw [emitInst_phi hc hops hv] at hg ⊢
  generalize hr : d.dispatchPhiVar c p.1 (d.airTypeId (opAt p.2 0)) = r at *
  have htake : r.2.Grows (r.2.take 1 p.1 r.2.nextId) :=
    DispatchCtx.grows_take 1 (.inr (hl.reached.unbound p.1 (Nat.le_refl _) hbase))
  have hgr : r.2.Grows fin := htake.trans hg
  have hne := hl.reached.ok.next_pos.ne'
  have hmem : r.1 ∈ T.iface := by
    rw [← hvar]
    exact w.phiVar_mem hl.reached hgr (by rw [hvar]; exact hv)
  simp only [airInst, hc] at hs
  obtain ⟨x, hx, rfl⟩ := Option.map_eq_some_iff.mp hs
  have hio : st.io r.1 = x := by
    rw [← hvar, ← hgr.phiVar p.1 (by rw [hvar]; exact hv)]
    exact hst.phis p hdue x hx
  have hlow : ∀ y < c.nextId, (st.set r.2.nextId (st.io r.1)).env y = st.env y :=
    fun y hy => st.set_lt _ (hy.trans_le hl.ext.next)
  have hat : At d bbs ι fin num (r.2.take 1 p.1 r.2.nextId) p.1 γ
      (st.set r.2.nextId (st.io r.1)) :=
    hst.frame (r.2.take 1 p.1 r.2.nextId) h.ok w.const hlow rfl hl.ext.cur
      (fun v _ hb => (hl.ext.toGrows.trans htake).bound v hb) hst.mem
  refine lands_single (T.exec_load hmem st) ⟨hat, ?_⟩
  · rw [if_pos (produces_phi hc)]
    refine ⟨x, rfl, ?_⟩
    have hbound : (r.2.take 1 p.1 r.2.nextId).bound p.1 = r.2.nextId := by
      simp [DispatchCtx.take, hne]
    rw [Holds, hbound]
    exact ⟨hne, (st.set_self _ _).trans hio⟩

theorem emitInst_runs_handled {b : AirBb} {p : Nat × XlateInst} {s : AirState V Mem}
    (w : World d bbs start β ι fin T) (hids : d.FreshIds start b) (hem : d.Emits A T)
    (h : d.Reached bbs start β ι p.1 p.1 c) (hp : p ∈ b.body) (hc : handled p.2.code = true)
    (hops : ∀ o ∈ d.operands p.2, d.OperandOk bbs c.curBb p.1 o)
    (hbase : d.ctx.layout.instIdBase ≤ p.1) (hn : p.1 < 2^32)
    (hg : (d.emitInst bbs c p).2.Grows fin) (hst : At d bbs ι fin num c p.1 γ st)
    (hs : d.airInst A γ.phi p ⟨γ.env, γ.mem⟩ = some s) :
    Lands T.exec (d.emitInst bbs c p).1
      (Emits.After d bbs ι fin (d.emitInst bbs c p).2 num p γ s) st := by
  obtain ⟨hl, hplain⟩ := operandIds_leaves h hops
  obtain ⟨vals, x, hvals, hexec, henv⟩ := airInst_handled hc hs
  have hruns := fun hgr => operandIds_runs (T := T) w h hn hops hgr hst hvals
  rw [emitInst_handled hc] at hg ⊢
  generalize d.operandIds bbs c p = r at *
  simp only at hg ⊢
  have htake : r.ctx.Grows (r.ctx.take (d.emit p r.ctx.nextId r.val).width p.1
      (if d.produces p then (d.emit p r.ctx.nextId r.val).val else 0)) :=
    DispatchCtx.grows_take _ (.inr (hl.reached.unbound p.1 (Nat.le_refl _) hbase))
  refine (hruns (htake.trans hg)).append ?_
  rintro t ⟨hro, hne, hmap⟩
  have hexec' : A.exec p.2 (r.val.map t.env) t.mem = some (x, s.mem) := by
    rw [hmap, hro.at_.mem]
    exact hexec
  have hsuit := w.operands hl.reached.ok hg (htake.trans hg) hplain hne
  refine (hem.exec p r.ctx.nextId r.val t x s.mem hc hsuit hexec').imp ?_
  rintro u ⟨hmem, hio, hlow, hval⟩
  refine ⟨hro.at_.frame (r.ctx.take (d.emit p r.ctx.nextId r.val).width p.1
    (if d.produces p then (d.emit p r.ctx.nextId r.val).val else 0)) hl.reached.ok w.const hlow
    hio rfl (fun v _ hb => htake.bound v hb) hmem, ?_⟩
  cases hprod : d.produces p with
  | false =>
    rw [henv, hprod]
    rfl
  | true =>
    have hid := (hids p hp hc hprod r.ctx.nextId r.val hl.reached.ok.startLe).1
    rw [if_pos rfl]
    refine ⟨x, by rw [henv, hprod]; rfl, ?_⟩
    have hbound : (r.ctx.take (d.emit p r.ctx.nextId r.val).width p.1
        (d.emit p r.ctx.nextId r.val).val).bound p.1 = (d.emit p r.ctx.nextId r.val).val := by
      simp [DispatchCtx.take, hid]
    rw [if_pos rfl, Holds, hbound]
    exact ⟨hid, hval hprod⟩

/-- One instruction, and the variable of its result. -/
theorem emitSpilled_runs {b : AirBb} {p : Nat × XlateInst} {s : AirState V Mem}
    (w : World d bbs start β ι fin T) (hids : d.FreshIds start b) (hem : d.Emits A T)
    (h : d.Reached bbs start β ι p.1 p.1 c) (hb : d.BlockOk bbs c.curBb b) (hp : p ∈ b.body)
    (hbase : d.ctx.layout.instIdBase ≤ p.1)
    (hcap : d.produces p = true → p.1 < d.ctx.valueIdCapacity) (hn : p.1 < 2^32)
    (hown : d.produces p = true → d.defBb bbs p.1 = some c.curBb) (hdue : b.phis ⊆ γ.due)
    (hg : (d.emitSpilled bbs c p).2.Grows fin)
    (hst : At d bbs ι fin num c p.1 γ st)
    (hs : d.airInst A γ.phi p ⟨γ.env, γ.mem⟩ = some s) :
    Lands T.exec (d.emitSpilled bbs c p).1
      (At d bbs ι fin num (d.emitSpilled bbs c p).2 (if d.produces p then p.1+1 else p.1)
        { γ with env := s.env, mem := s.mem }) st := by
  obtain ⟨hl, hbound⟩ := emitInst_leaves hids h hb hp hbase hcap
  have hemit : (d.emitInst bbs c p).2.Grows fin →
      Lands T.exec (d.emitInst bbs c p).1
        (Emits.After d bbs ι fin (d.emitInst bbs c p).2 num p γ s) st := by
    intro hg'
    rcases hb.code p hp with hc | hc | hc
    · obtain ⟨hmem, -, hops⟩ := hb.phis p hp hc
      exact emitInst_runs_phi w h hc hops hbase (hcap (produces_phi hc)) (hdue hmem) hg' hst hs
    · rw [emitInst_declareblocks hc]
      rw [airInst, hc] at hs
      cases hs
      refine lands_nil ⟨hst, ?_⟩
      rw [produces_declareblocks hc]
      rfl
    · exact emitInst_runs_handled w hids hem h hp hc (hb.operands p hp hc) hbase hn hg' hst hs
  rw [emitSpilled] at hg ⊢
  cases hprod : d.produces p with
  | false =>
    rw [hprod] at hg
    simp only [Bool.false_eq_true, false_and, if_false] at hg ⊢
    refine (hemit hg).imp ?_
    rintro t ⟨hat, henv⟩
    rw [hprod, if_neg Bool.false_ne_true] at henv
    rw [henv]
    exact hat
  | true =>
    rw [hprod, if_pos rfl] at hl
    rw [hprod] at hg
    simp only [true_and, if_true] at hg ⊢
    have hafter : ∀ t, Emits.After d bbs ι fin (d.emitInst bbs c p).2 num p γ s t →
        ∃ x, s.env = Function.update γ.env p.1 (some x) ∧ Holds (d.emitInst bbs c p).2 p.1 x t ∧
          At d bbs ι fin num (d.emitInst bbs c p).2 p.1 { γ with mem := s.mem } t := by
      rintro t ⟨hat, henv⟩
      rw [hprod, if_pos rfl] at henv
      obtain ⟨x, hx, hholds⟩ := henv
      exact ⟨x, hx, hholds, hat⟩
    by_cases h0 : c.curBb = 0
    · rw [if_neg (not_not.mpr h0)] at hg ⊢
      refine (hemit hg).imp ?_
      intro t ht
      obtain ⟨x, hx, hholds, hat⟩ := hafter t ht
      have hkept : ¬ d.Kept bbs p.1 := by
        rintro ⟨⟨l, hl0, hl⟩, -⟩
        rw [hown hprod, h0] at hl
        exact hl0 (Option.some.inj hl).symm
      rw [hx]
      exact hat.result hkept hholds
    · rw [if_pos h0] at hg ⊢
      have hspill := dispatchSpillResult_leaves hl.reached (hcap hprod) (hbound hprod)
        ⟨_, h0, hown hprod⟩
      refine (hemit (hspill.ext.toGrows.trans hg)).append ?_
      intro t ht
      obtain ⟨x, hx, hholds, hat⟩ := hafter t ht
      rw [hx]
      exact dispatchSpillResult_runs w hl.reached (hcap hprod) ⟨_, h0, hown hprod⟩ hg hat hholds

/-- The body of a block. -/
theorem dispatchEmitBlock_runs {b : AirBb} {ps : List (Nat × XlateInst)} {m : Nat}
    {s : AirState V Mem} (w : World d bbs start β ι fin T) (hids : d.FreshIds start b)
    (hem : d.Emits A T) (h : d.Reached bbs start β ι n n c) (hb : d.BlockOk bbs c.curBb b)
    (hps : Counts d.types n ps m) (hsub : ∀ p ∈ ps, p ∈ b.body)
    (hbase : d.ctx.layout.instIdBase ≤ n) (hcap : m ≤ d.ctx.valueIdCapacity) (hm : m < 2^32)
    (hown : ∀ p ∈ ps, d.produces p = true → d.defBb bbs p.1 = some c.curBb)
    (hdue : b.phis ⊆ γ.due) (hg : (d.dispatchEmitBlock bbs c ps).2.Grows fin)
    (hst : At d bbs ι fin num c n γ st)
    (hs : d.airBody A γ.phi ps ⟨γ.env, γ.mem⟩ = some s) :
    Lands T.exec (d.dispatchEmitBlock bbs c ps).1
      (At d bbs ι fin num (d.dispatchEmitBlock bbs c ps).2 m
        { γ with env := s.env, mem := s.mem }) st := by
  induction ps generalizing c n γ st with
  | nil =>
    cases hps
    cases hs
    exact lands_nil hst
  | cons p ps ih =>
    obtain ⟨rfl, hrest⟩ := hps
    have hle := hrest.le
    have hp : d.produces p = true → p.1 < d.ctx.valueIdCapacity := by
      intro hprod
      rw [show instProducesValue d.types p.2 = true from hprod, if_pos rfl] at hle
      omega
    have hlt : p.1 < 2^32 := by
      split at hle <;> omega
    have hmem := hsub p List.mem_cons_self
    have hl := emitSpilled_leaves hids h hb hmem hbase hp (hown p List.mem_cons_self)
    have hb' : d.BlockOk bbs (d.emitSpilled bbs c p).2.curBb b := by
      rw [hl.ext.cur]
      exact hb
    have hsub' : ∀ q ∈ ps, q ∈ b.body := fun q hq => hsub q (List.mem_cons_of_mem p hq)
    have hbase' : d.ctx.layout.instIdBase ≤ if d.produces p then p.1+1 else p.1 := by
      split <;> omega
    have hown' : ∀ q ∈ ps, d.produces q = true →
        d.defBb bbs q.1 = some (d.emitSpilled bbs c p).2.curBb := by
      intro q hq hprod
      rw [hl.ext.cur]
      exact hown q (List.mem_cons_of_mem p hq) hprod
    have hl' := dispatchEmitBlock_leaves hids hl.reached hb' hrest hsub' hbase' hcap hown'
    obtain ⟨s₁, hs₁, hs⟩ := Option.bind_eq_some_iff.mp hs
    rw [dispatchEmitBlock] at hg ⊢
    refine (emitSpilled_runs w hids hem h hb hmem hbase hp hlt (hown p List.mem_cons_self) hdue
      (hl'.ext.toGrows.trans hg) hst hs₁).append ?_
    intro t ht
    exact @ih _ _ { γ with env := s₁.env, mem := s₁.mem } _ hl.reached hb' hrest hsub' hbase'
      hown' hdue hg ht hs

end Dispatch

end Lagfx.Spirv
