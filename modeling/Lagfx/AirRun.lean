import Lagfx.DispatchNumbers

/-! Runs of an AIR body, block by block. PHIs take the values of the edge, all read before
any is set; an instruction reads its operands by LLVM's relative numbers. -/
namespace Lagfx.Spirv
open Bits

/-- The value an operand refers to: relative to the number its instruction finds. -/
def llvmOperand (enc next : Nat) : Nat := (((next : Int)-enc) % 2^32).toNat

/- Meaning of AIR instructions. `exec`: one with its operands. `ret`: what the function
   returns and leaves. `truth`: of a branch condition. `same`: of a SWITCH and a case. -/
structure AirInterp (V Mem : Type) where
  exec : XlateInst → List V → Mem → Option (V × Mem)
  ret : XlateInst → List V → Mem → Option V × Mem
  truth : V → Bool
  same : V → V → Bool

structure AirState (V Mem : Type) where
  env : Nat → Option V
  mem : Mem

inductive AirOutcome (V Mem : Type) where
  | returned (v : Option V) (mem : Mem)
  | running (mem : Mem)
  | stuck

/-- The blocks a terminator may go to, the default of a SWITCH first. -/
def successors (i : XlateInst) : List Nat :=
  match i.code with
  | .br =>
    if i.ops.length = 1 then [opAt i 0]
    else if 3 ≤ i.ops.length then [opAt i 0, opAt i 1]
    else []
  | .switch => if i.ops.length < 3 then [] else opAt i 2 :: (switchCases i).map (·.2)
  | _ => []

variable {V Mem : Type}

def readAll (env : Nat → Option V) : List Nat → Option (List V)
  | [] => some []
  | v :: vs => (env v).bind fun x => (readAll env vs).map (x :: ·)

namespace Dispatch
variable (d : Dispatch) (A : AirInterp V Mem)

/-- The operands of an instruction. -/
def readOperands (p : Nat × XlateInst) (env : Nat → Option V) : Option (List V) :=
  readAll env ((d.operands p.2).map (llvmOperand · p.1))

/-- The value of each PHI on the edge from block `pred`. -/
def onEdge (pred : Nat) (env : Nat → Option V) (p : Nat × XlateInst) : Option V :=
  (phiIncoming p pred).bind env

/-- `φ`: the values of the edge. -/
def airInst (φ : Nat × XlateInst → Option V) (p : Nat × XlateInst) (s : AirState V Mem) :
    Option (AirState V Mem) :=
  match p.2.code with
  | .declareblocks => some s
  | .phi => (φ p).map fun x => { s with env := Function.update s.env p.1 (some x) }
  | _ =>
    match d.readOperands p s.env with
    | none => none
    | some vals => (A.exec p.2 vals s.mem).map fun r =>
      { env := if d.produces p then Function.update s.env p.1 (some r.1) else s.env, mem := r.2 }

def airBody (φ : Nat × XlateInst → Option V) :
    List (Nat × XlateInst) → AirState V Mem → Option (AirState V Mem)
  | [], s => some s
  | p :: ps, s => (d.airInst A φ p s).bind (airBody φ ps)

/-- The case of a SWITCH that a value selects, if there is one; there are not two. -/
def selectCase (env : Nat → Option V) (x : V) (defbb : Nat) (cases : List (Nat × Nat)) :
    Option Nat :=
  match readAll env (cases.map (·.1)) with
  | none => none
  | some vals =>
    match (cases.zip vals).filter fun k => A.same x k.2 with
    | [] => some defbb
    | [k] => some k.1.2
    | _ => none

/-- Where a terminator other than a RET goes on. -/
def airNext (p : Nat × XlateInst) (env : Nat → Option V) : Option Nat :=
  match p.2.code with
  | .br =>
    if p.2.ops.length = 1 then some (opAt p.2 0)
    else if 3 ≤ p.2.ops.length then
      (env (llvmOperand (opAt p.2 2) p.1)).map fun x =>
        if A.truth x then opAt p.2 0 else opAt p.2 1
    else none
  | .switch =>
    if p.2.ops.length < 3 then none
    else
      (env (llvmOperand (opAt p.2 1) p.1)).bind fun x =>
        selectCase A env x (opAt p.2 2) (switchCases p.2)
  | _ => none

/-- At most `fuel` blocks, from block `k` on. -/
def airRun (bbs : List AirBb) :
    Nat → Nat → (Nat × XlateInst → Option V) → AirState V Mem → AirOutcome V Mem
  | 0, _, _, s => .running s.mem
  | fuel+1, k, φ, s =>
    match bbs[k]? with
    | none => .stuck
    | some b =>
      match d.airBody A φ b.body s with
      | none => .stuck
      | some t =>
        if b.term.2.code = .ret then
          match d.readOperands b.term t.env with
          | none => .stuck
          | some vals => .returned (A.ret b.term.2 vals t.mem).1 (A.ret b.term.2 vals t.mem).2
        else
          match airNext A b.term t.env with
          | none => .stuck
          | some j => airRun bbs fuel j (onEdge k t.env) t

/-- What a block that is not stuck does. -/
theorem airRun_succ {d : Dispatch} {A : AirInterp V Mem} {bbs : List AirBb} {fuel k : Nat}
    {φ : Nat × XlateInst → Option V} {s : AirState V Mem} {b : AirBb} (hb : bbs[k]? = some b)
    (h : d.airRun A bbs (fuel+1) k φ s ≠ .stuck) :
    ∃ t, d.airBody A φ b.body s = some t ∧
      ((b.term.2.code = .ret ∧ ∃ vals, d.readOperands b.term t.env = some vals ∧
          d.airRun A bbs (fuel+1) k φ s =
            .returned (A.ret b.term.2 vals t.mem).1 (A.ret b.term.2 vals t.mem).2) ∨
        ∃ j, airNext A b.term t.env = some j ∧
          d.airRun A bbs (fuel+1) k φ s = d.airRun A bbs fuel j (onEdge k t.env) t) := by
  rw [airRun, hb] at h ⊢
  simp only at h ⊢
  cases hs : d.airBody A φ b.body s with
  | none =>
    rw [hs] at h
    exact absurd rfl h
  | some t =>
    rw [hs] at h
    refine ⟨t, rfl, ?_⟩
    simp only at h ⊢
    by_cases hc : b.term.2.code = .ret
    · rw [if_pos hc] at h ⊢
      refine .inl ⟨hc, ?_⟩
      cases hvals : d.readOperands b.term t.env with
      | none =>
        rw [hvals] at h
        exact absurd rfl h
      | some vals => exact ⟨vals, rfl, rfl⟩
    · rw [if_neg hc] at h ⊢
      refine .inr ?_
      cases hnext : airNext A b.term t.env with
      | none =>
        rw [hnext] at h
        exact absurd rfl h
      | some j => exact ⟨j, rfl, rfl⟩

/- What the lowering asks of a body. -/

section
variable (bbs : List AirBb)

/-- A value of a block after the entry that has a variable the store goes to. -/
def Kept (v : Nat) : Prop :=
  (∃ k, k ≠ 0 ∧ d.defBb bbs v = some k) ∧ v < d.ctx.valueIdCapacity ∧
    if d.preType v ≠ 0 then d.haveType v = d.preType v else d.siteType v ≠ 0

/-- A use of `v` in block `k`, at number `n`. A value of another block has its variable by
then; any other is defined before. -/
def UseOk (k n v : Nat) : Prop :=
  v < d.ctx.valueIdCapacity ∧
    if d.crosses bbs k v then d.Kept bbs v ∧ (v < n ∨ d.preType v ≠ 0) else v < n

def OperandOk (k n enc : Nat) : Prop := 0 < enc ∧ enc ≤ n ∧ d.UseOk bbs k n (n-enc)

/-- The uses of a terminator, the PHIs of its successors included. -/
structure TermOk (k : Nat) (p : Nat × XlateInst) : Prop where
  ret : p.2.code = .ret → ∀ o ∈ d.operands p.2, d.OperandOk bbs k p.1 o
  cond : p.2.code = .br → 3 ≤ p.2.ops.length → d.OperandOk bbs k p.1 (opAt p.2 2)
  selector : p.2.code = .switch → d.OperandOk bbs k p.1 (opAt p.2 1)
  cases : ∀ c ∈ switchCases p.2, p.2.code = .switch → d.UseOk bbs k p.1 c.1
  targets : ∀ s ∈ successors p.2, 0 < s ∧ s < bbs.length
  phis : ∀ s ∈ successors p.2, ∀ b ∈ bbs[s]?, ∀ q ∈ b.phis, ∀ v ∈ phiIncoming q k,
    d.UseOk bbs k p.1 v

instance (v : Nat) : Decidable (d.Kept bbs v) :=
  decidable_of_iff ((∃ k ∈ d.defBb bbs v, k ≠ 0) ∧ v < d.ctx.valueIdCapacity ∧
    if d.preType v ≠ 0 then d.haveType v = d.preType v else d.siteType v ≠ 0) <| by
      simp only [Kept, Option.mem_def, and_comm]

instance (k n v : Nat) : Decidable (d.UseOk bbs k n v) := inferInstanceAs (Decidable (_ ∧ _))

instance (k n enc : Nat) : Decidable (d.OperandOk bbs k n enc) :=
  inferInstanceAs (Decidable (_ ∧ _ ∧ _))

structure BlockOk (k : Nat) (b : AirBb) : Prop where
  code : ∀ p ∈ b.body, p.2.code = .phi ∨ p.2.code = .declareblocks ∨ handled p.2.code = true
  phis : ∀ p ∈ b.body, p.2.code = .phi → p ∈ b.phis ∧ k ≠ 0 ∧ 0 < p.2.ops.length
  allocas : ∀ p ∈ b.body, p.2.code = .alloca → k = 0
  operands : ∀ p ∈ b.body, handled p.2.code = true → ∀ o ∈ d.operands p.2,
    d.OperandOk bbs k p.1 o
  term : d.TermOk bbs k b.term
  direct : b.term.2.code ≠ .indirectbr

structure BodyOk : Prop where
  blocks : d.partition = some bbs
  few : bbs.length ≤ 65535
  room : d.ctx.layout.instIdBase+d.ctx.layout.insts.length ≤ d.ctx.valueIdCapacity
  ids : d.ctx.valueIdCapacity < 2^32
  block : ∀ k b, bbs[k]? = some b → d.BlockOk bbs k b

end

end Dispatch

end Lagfx.Spirv
