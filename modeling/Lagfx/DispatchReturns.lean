import Lagfx.DispatchTheorem

/-! The lowered function returns what the body returns, and gives up at the cap. -/
namespace Lagfx.Spirv
open Ssa

namespace Dispatch
section
variable {V Mem : Type} {d : Dispatch} {bbs : List AirBb} {start entry F : Nat}
variable {bound : Nat → Nat} {fin : DispatchCtx} {A : AirInterp V Mem} {num : Nat → V}
variable {bool : Bool → V} {g : Grammar} {I : Interp V Mem} {M : Module} {ρ₀ : Nat → V} {f : Fn}
variable {η : Nat → Option V} {st : State V Mem} {mem : Mem}

/-- A body lowered to one loop: where a run of it returns after at most as many blocks as the
loop counts, the function returns the same value and leaves the same memory. -/
theorem translateBodyDispatch_returns {fuel : Nat} {v : Option V}
    (hok : d.BodyOk bbs) (hids : ∀ b ∈ bbs, d.FreshIds start b)
    (hconst : ∀ k, UsesConst bbs k → d.const k < start) (hstart : d.StartOk start bound)
    (hentry : entry < start)
    (hlow : d.translateBodyDispatch entry (startCtx start bound) = some (f.blocks, fin))
    (hctl : ∀ F', (targetAt g I M ρ₀ fin.vars F').Control A num bool)
    (hem : ∀ F', F ≤ F' → d.Emits A (targetAt g I M ρ₀ fin.vars F'))
    (hat : d.AtEntry bbs bound num η st) (hfuel : fuel ≤ dispatchMaxIters)
    (hrun : d.airRun A bbs fuel 0 (fun _ => none) ⟨η, st.mem⟩ = .returned v mem) :
    ∃ n io, runFrom g I M fin.vars ρ₀ n f entry st = some (.returned v mem io) := by
  obtain ⟨m, β, ι, l, h, c₁, c, b, hl, he⟩ :=
    lowered_of_translate hok hids hconst hstart hentry hlow hctl hem
  cases fuel with
  | zero =>
    rw [airRun] at hrun
    cases hrun
  | succ fuel =>
    obtain ⟨io, hio⟩ := he.returned hl hat hfuel hrun
    exact ⟨_, io, hio⟩

/-- Where the body is still running after as many blocks as the loop counts, the function
returns all the same: nothing, or the undefined value of a helper, and the memory as the
body has left it by then. -/
theorem translateBodyDispatch_capped
    (hok : d.BodyOk bbs) (hids : ∀ b ∈ bbs, d.FreshIds start b)
    (hconst : ∀ k, UsesConst bbs k → d.const k < start) (hstart : d.StartOk start bound)
    (hentry : entry < start)
    (hlow : d.translateBodyDispatch entry (startCtx start bound) = some (f.blocks, fin))
    (hctl : ∀ F', (targetAt g I M ρ₀ fin.vars F').Control A num bool)
    (hem : ∀ F', F ≤ F' → d.Emits A (targetAt g I M ρ₀ fin.vars F'))
    (hat : d.AtEntry bbs bound num η st)
    (hrun : d.airRun A bbs dispatchMaxIters 0 (fun _ => none) ⟨η, st.mem⟩ = .running mem) :
    ∃ n v io, runFrom g I M fin.vars ρ₀ n f entry st = some (.returned v mem io) ∧
      v.isSome = d.helperRet.isSome := by
  obtain ⟨m, β, ι, l, h, c₁, c, b, hl, he⟩ :=
    lowered_of_translate hok hids hconst hstart hentry hlow hctl hem
  obtain ⟨t, -, ht⟩ := he.capped hl hat hrun
  exact ⟨_, _, _, ht, Option.isSome_map⟩

end

/- Bodies over three arguments, of additions and comparisons. -/

/-- The pairs of an OpSwitch. -/
def switchWords : List Nat → List (Nat × Nat)
  | a :: b :: ws => (a, b) :: switchWords ws
  | _ => []

theorem switchWords_flatMap (ps : List (Nat × Nat)) :
    switchWords (ps.flatMap fun p => [p.1, p.2]) = ps := by
  induction ps with
  | nil => rfl
  | cons p ps ih =>
    change (p.1, p.2) :: switchWords (ps.flatMap fun p => [p.1, p.2]) = p :: ps
    rw [ih]

/-- The opcodes of a lowered body. -/
def controlGrammar : Grammar where
  result code args := if code ∈ [128, 169, 170, 176] then args[1]? else none
  uses code args :=
    if code ∈ [128, 169, 170, 176] then args.take 1 ++ args.drop 2
    else if code = 251 then args.take 2 ++ (switchWords (args.drop 2)).map (·.2)
    else args.take (if code = 250 then 3 else if code = 246 then 2 else 1)

def ofBool (b : Bool) : Nat := if b then 1 else 0

def controlInterp : Interp Nat Unit where
  const _ _ := 0
  globalVar _ _ mem := (0, mem)
  eval _ i vals mem :=
    match i.op.code, vals with
    | 128, [_, a, b] => some ((a+b) % 2^32, mem)
    | 169, [_, c, a, b] => some (if c = 1 then a else b, mem)
    | 170, [_, a, b] => some (ofBool (a == b), mem)
    | 176, [_, a, b] => some (ofBool (decide (a < b)), mem)
    | _, _ => some (0, mem)
  branch i vals :=
    match i.op.code, vals with
    | 249, _ => some (i.arg 0)
    | 250, c :: _ => some (if c = 1 then i.arg 1 else i.arg 2)
    | 251, c :: _ => some
      ((((switchWords (i.args.drop 2)).find? (·.1 == c)).map (·.2)).getD (i.arg 1))
    | _, _ => none
  member v _ := v
  zero := 0
  unset := 0

def arithInterp : AirInterp Nat Unit where
  exec i vals mem :=
    match i.code, vals with
    | .binop, [a, b] => some ((a+b) % 2^32, mem)
    | .cmp2, [a, b] => some (ofBool (decide (a < b)), mem)
    | _, _ => none
  ret _ vals mem := (vals.head?, mem)
  truth x := x == 1
  same a b := a == b

/-- Ids 1 to 3 are the arguments, 4 to 6 the constants 0 to 2, and 7 is the cap. -/
def arithDispatch (insts : List XlateInst) : Dispatch where
  ctx := {
    layout := ⟨[⟨.integer, [32]⟩], insts, 3, 0, 0, 0, 3⟩
    argAirTypeIds := [0, 0, 0]
    localConstants := []
    moduleConstants := []
    valueIdCapacity := 3+insts.length
    instResultAirType := [] }
  recorded v := if v = 5 then ⟨airTypeBool, 2, false⟩ else ⟨0, 1, false⟩
  airTypeId _ := 1
  boolId := 2
  vecId _ := 2
  uintId := 1
  const k := if k < 3 then 4+k else 7
  undef _ := 0
  ptrId _ := 3
  operands i :=
    match i.code with
    | .binop | .cmp2 => i.ops.take 2
    | .ret => i.ops
    | _ => []
  emit p next ids :=
    match p.2.code with
    | .binop => ⟨next, [⟨.other 128, 1 :: next :: ids⟩], 1⟩
    | .cmp2 => ⟨next, [⟨.other 176, 2 :: next :: ids⟩], 1⟩
    | .ret => ⟨0, if ids = [] then [⟨.ret, []⟩] else [⟨.returnValue, ids⟩], 0⟩
    | _ => ⟨next, [], 1⟩
  helperRet := none

theorem arith_control (M : Module) (ρ₀ : Nat → Nat) (iface : List Nat) (F : Nat) :
    (targetAt controlGrammar controlInterp M ρ₀ iface F).Control arithInterp id ofBool where
  truth b := by cases b <;> rfl
  branch l st := rfl
  branchIf c a b st := by
    by_cases hc : st.env c = 1 <;>
      simp [Target.exec, targetAt, execInsn, execOrdinary, Op.isTerminator, Op.code, Insn.uses,
        controlGrammar, controlInterp, arithInterp, Insn.arg, hc]
  switch s l ps st n hs hn := by
    have hwords := switchWords_flatMap ps
    simp [Target.exec, targetAt, execInsn, execOrdinary, Op.isTerminator, Op.code, Insn.uses,
        controlGrammar, controlInterp, Insn.arg, hs, hwords]
  select ty id c a b st := by
    by_cases hc : st.env c = 1 <;>
      simp [Target.exec, targetAt, execInsn, execOrdinary, Op.isTerminator, Op.code, Insn.uses,
        controlGrammar, controlInterp, arithInterp, opSelect, bindResult, Insn.result, State.set,
        hc]
  equal ty id a b st := rfl
  add ty id a b st m n ha hb := by
    simp [Target.exec, targetAt, execInsn, execOrdinary, Op.isTerminator, Op.code, Insn.uses,
        controlGrammar, controlInterp, bindResult, Insn.result, State.set, ha, hb]
  less ty id a b st m n ha hb _ _ := by
    simp [Target.exec, targetAt, execInsn, execOrdinary, Op.isTerminator, Op.code, Insn.uses,
        controlGrammar, controlInterp, bindResult, Insn.result, State.set, ha, hb]
  loopMerge a b st := rfl
  selectionMerge l st := rfl
  var ty id st := ⟨0, rfl⟩

theorem arith_emits (insts : List XlateInst) (M : Module) (ρ₀ : Nat → Nat) (iface : List Nat)
    (F : Nat) : (arithDispatch insts).Emits arithInterp
      (targetAt controlGrammar controlInterp M ρ₀ iface F) where
  exec := by
    intro p next ids st x mem _ _ hx
    obtain ⟨n, code, raw, ops⟩ := p
    cases code with
    | binop =>
      match ids, hx with
      | [a, b], hx =>
        obtain ⟨rfl, -⟩ := Prod.mk.inj (Option.some.inj hx)
        exact lands_single rfl ⟨rfl, rfl, fun y hy => st.set_lt _ hy, fun _ => st.set_self _ _⟩
      | a :: b :: c :: l, hx => cases hx
    | cmp2 =>
      match ids, hx with
      | [a, b], hx =>
        obtain ⟨rfl, -⟩ := Prod.mk.inj (Option.some.inj hx)
        exact lands_single rfl ⟨rfl, rfl, fun y hy => st.set_lt _ hy, fun _ => st.set_self _ _⟩
      | a :: b :: c :: l, hx => cases hx
    | _ => cases hx
  ret := by
    intro p next ids st hc _
    obtain ⟨n, code, raw, ops⟩ := p
    cases hc
    cases ids <;> rfl

theorem arith_freshIds (insts : List XlateInst) (b : AirBb) :
    (arithDispatch insts).FreshIds 9 b := by
  intro p _ hc _ next ids hnext
  obtain ⟨n, code, raw, ops⟩ := p
  have hown : next ≠ 0 ∧ (next ∈ ids ∨ next < 9 ∨ next ≤ next ∧ next < next+1) :=
    ⟨by omega, .inr (.inr ⟨Nat.le_refl next, Nat.lt_succ_self next⟩)⟩
  cases code with
  | ret => cases hc
  | _ => exact hown

def argIds (v : Nat) : Nat := if v < 3 then v+1 else 0

/-- The arguments are 0, 1 and 3. -/
def argState : State Nat Unit where
  env y := [0, 0, 1, 3, 0, 1, 2, 65536].getD y 0
  mem := ()
  io _ := 0

def argValues (v : Nat) : Option Nat := if v < 3 then some (argState.env (v+1)) else none

theorem arith_startOk (insts : List XlateInst) : (arithDispatch insts).StartOk 9 argIds where
  pos := by decide
  lt v := by
    rw [argIds]
    split <;> omega
  unbound v hv := if_neg (Nat.not_lt.mpr hv)

section
variable (insts : List XlateInst) {bbs : List AirBb} (hbbs : bbs.length ≤ 3) {k : Nat}
include hbbs

theorem arith_const (hk : UsesConst bbs k) : (arithDispatch insts).const k < 9 ∧
    argState.env ((arithDispatch insts).const k) = k := by
  rcases hk with hk | rfl
  · match k, hk.trans_le hbbs with
    | 0, _ | 1, _ | 2, _ => exact ⟨by simp [arithDispatch], rfl⟩
  · exact ⟨by simp [arithDispatch, dispatchMaxIters], rfl⟩

theorem arith_atEntry : (arithDispatch insts).AtEntry bbs argIds id argValues argState where
  env v x hx := by
    rw [argValues] at hx
    rw [argIds]
    split at hx
    · next hv =>
      rw [if_pos hv]
      exact ⟨hv, Nat.succ_ne_zero v, Option.some.inj hx⟩
    · cases hx
  consts k hk := (arith_const insts hbbs hk).2

end

/-- The function of a body. -/
def arithLowered (insts : List XlateInst) (bbs : List AirBb) : List Block × DispatchCtx :=
  (arithDispatch insts).dispatchBlocks bbs 8 (startCtx 9 argIds)

def arithFn (insts : List XlateInst) (bbs : List AirBb) : Fn where
  retType := 1
  id := 8
  control := 0
  fnType := 1
  header := []
  blocks := (arithLowered insts bbs).1

theorem arith_translate {insts : List XlateInst} {bbs : List AirBb}
    (h : (arithDispatch insts).partition = some bbs) :
    (arithDispatch insts).translateBodyDispatch 8 (startCtx 9 argIds) =
      some ((arithFn insts bbs).blocks, (arithLowered insts bbs).2) := by
  rw [translateBodyDispatch, h]
  rfl

/-- Counts up to the third argument by the second. -/
def countInsts : List XlateInst :=
  [⟨.declareblocks, 1, [3]⟩, ⟨.br, 11, [1]⟩, ⟨.phi, 16, [0, 6, 0, 3, 1]⟩,
    ⟨.binop, 2, [1, 3, 0]⟩, ⟨.cmp2, 28, [1, 3, 36]⟩, ⟨.br, 11, [1, 2, 1]⟩, ⟨.ret, 10, [2]⟩]

def countBlocks : List AirBb :=
  [⟨[(3, ⟨.declareblocks, 1, [3]⟩)], (3, ⟨.br, 11, [1]⟩)⟩,
    ⟨[(3, ⟨.phi, 16, [0, 6, 0, 3, 1]⟩), (4, ⟨.binop, 2, [1, 3, 0]⟩),
      (5, ⟨.cmp2, 28, [1, 3, 36]⟩)], (6, ⟨.br, 11, [1, 2, 1]⟩)⟩,
    ⟨[], (6, ⟨.ret, 10, [2]⟩)⟩]

theorem count_block (k : Nat) (b : AirBb) (hb : countBlocks[k]? = some b) :
    (arithDispatch countInsts).BlockOk countBlocks k b := by
  match k, hb with
  | 0, rfl | 1, rfl | 2, rfl =>
    exact ⟨by decide, by decide, by decide, by decide,
      ⟨by decide, by decide, by decide, by decide, by decide, by decide⟩, by decide⟩

theorem count_bodyOk : (arithDispatch countInsts).BodyOk countBlocks :=
  ⟨by decide, by decide, by decide, by decide, count_block⟩

/-- The lowered loop counts 1, 2, 3. -/
theorem count_returns : ∃ n io, runFrom controlGrammar controlInterp ⟨20, [], []⟩
    (arithLowered countInsts countBlocks).2.vars (fun _ => 0) n (arithFn countInsts countBlocks) 8
    argState = some (.returned (some 3) () io) := by
  have hlen : countBlocks.length ≤ 3 := Nat.le_refl 3
  exact translateBodyDispatch_returns (F := 0) (A := arithInterp) count_bodyOk
    (fun b _ => arith_freshIds _ b)
    (fun k hk => (arith_const countInsts hlen hk).1) (arith_startOk _) (by decide)
    (arith_translate count_bodyOk.blocks) (arith_control _ _ _)
    (fun F' _ => arith_emits _ _ _ _ F') (arith_atEntry _ hlen)
    (show 5 ≤ dispatchMaxIters by decide) rfl

/-- A block that branches to itself. -/
def spinInsts : List XlateInst := [⟨.br, 11, [1]⟩, ⟨.br, 11, [1]⟩]

def spinBlocks : List AirBb := [⟨[], (3, ⟨.br, 11, [1]⟩)⟩, ⟨[], (3, ⟨.br, 11, [1]⟩)⟩]

theorem spin_block (k : Nat) (b : AirBb) (hb : spinBlocks[k]? = some b) :
    (arithDispatch spinInsts).BlockOk spinBlocks k b := by
  match k, hb with
  | 0, rfl | 1, rfl =>
    exact ⟨by decide, by decide, by decide, by decide,
      ⟨by decide, by decide, by decide, by decide, by decide, by decide⟩, by decide⟩

theorem spin_bodyOk : (arithDispatch spinInsts).BodyOk spinBlocks :=
  ⟨by decide, by decide, by decide, by decide, spin_block⟩

theorem spin_runs (fuel : Nat) {k : Nat} (hk : k < 2) (φ : Nat × XlateInst → Option Nat)
    (s : AirState Nat Unit) :
    (arithDispatch spinInsts).airRun arithInterp spinBlocks fuel k φ s = .running s.mem := by
  induction fuel generalizing k φ s with
  | zero => rfl
  | succ fuel ih =>
    match k, hk with
    | 0, _ | 1, _ => exact ih (Nat.lt_succ_self 1) _ s

/-- The endless loop is left. -/
theorem spin_capped : ∃ n v io, runFrom controlGrammar controlInterp ⟨20, [], []⟩
    (arithLowered spinInsts spinBlocks).2.vars (fun _ => 0) n (arithFn spinInsts spinBlocks) 8
    argState = some (.returned v () io) ∧ v.isSome = false := by
  have hlen : spinBlocks.length ≤ 3 := Nat.le_succ 2
  exact translateBodyDispatch_capped (F := 0) (A := arithInterp) spin_bodyOk
    (fun b _ => arith_freshIds _ b)
    (fun k hk => (arith_const spinInsts hlen hk).1) (arith_startOk _) (by decide)
    (arith_translate spin_bodyOk.blocks) (arith_control _ _ _)
    (fun F' _ => arith_emits _ _ _ _ F') (arith_atEntry _ hlen)
    (spin_runs _ (Nat.zero_lt_succ 1) _ _)

end Dispatch

end Lagfx.Spirv
