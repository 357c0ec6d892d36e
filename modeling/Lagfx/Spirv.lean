import Lagfx.Lib.Ssa
import Mathlib.Tactic.Linarith

/-! SPIR-V modules: instructions as they stand in the stream, the ids they define and
use, and modules laid out in declarations, functions and blocks. Opcodes the passes never
name answer through `Grammar`. -/
namespace Lagfx.Spirv

inductive Op where
  | undef | name | memoryModel | entryPoint | executionMode | capability
  | typeVoid | typeInt | typeFloat | typeVector | typeArray | typeStruct | typePointer
  | typeFunction | constant | specConstantOp
  | function | functionParameter | functionEnd | functionCall
  | var | load | store | accessChain | decorate | memberDecorate | compositeExtract
  | bitcast | phi | label | ret | returnValue | lifetimeStart | lifetimeStop
  | other (code : Nat)
deriving DecidableEq, Repr

def Op.code : Op → Nat
  | .undef => 1
  | .name => 5
  | .memoryModel => 14
  | .entryPoint => 15
  | .executionMode => 16
  | .capability => 17
  | .typeVoid => 19
  | .typeInt => 21
  | .typeFloat => 22
  | .typeVector => 23
  | .typeArray => 28
  | .typeStruct => 30
  | .typePointer => 32
  | .typeFunction => 33
  | .constant => 43
  | .specConstantOp => 52
  | .function => 54
  | .functionParameter => 55
  | .functionEnd => 56
  | .functionCall => 57
  | .var => 59
  | .load => 61
  | .store => 62
  | .accessChain => 65
  | .decorate => 71
  | .memberDecorate => 72
  | .compositeExtract => 81
  | .bitcast => 124
  | .phi => 245
  | .label => 248
  | .ret => 253
  | .returnValue => 254
  | .lifetimeStart => 256
  | .lifetimeStop => 257
  | .other c => c

def Op.table : List Op :=
  [.undef, .name, .memoryModel, .entryPoint, .executionMode, .capability, .typeVoid, .typeInt,
    .typeFloat, .typeVector, .typeArray, .typeStruct, .typePointer, .typeFunction, .constant,
    .specConstantOp, .function, .functionParameter, .functionEnd, .functionCall, .var, .load,
    .store, .accessChain, .decorate, .memberDecorate, .compositeExtract, .bitcast, .phi, .label,
    .ret, .returnValue, .lifetimeStart, .lifetimeStop]

def Op.ofCode (c : Nat) : Op := (Op.table.find? (·.code == c)).getD (.other c)

/-- Opcodes that `ofCode` reads back. -/
def Op.Canonical (op : Op) : Prop := op.code < 65536 ∧ Op.ofCode op.code = op

instance (op : Op) : Decidable op.Canonical := inferInstanceAs (Decidable (_ ∧ _))

/-- OpTypeVoid to OpTypeFunction. -/
def Op.isType (op : Op) : Bool := 19 ≤ op.code && op.code ≤ 33

/-- OpBranch to OpUnreachable. -/
def Op.isTerminator (op : Op) : Bool := 249 ≤ op.code && op.code ≤ 255

/-- OpLine and OpNoLine. -/
def Op.isLine (op : Op) : Bool := op.code == 8 || op.code == 317

structure Insn where
  op : Op
  args : List Nat
deriving DecidableEq, Repr

/-- Operand `k`, the stream's word `k+1`. -/
def Insn.arg (i : Insn) (k : Nat) : Nat := i.args.getD k 0

def Insn.words (i : Insn) : Nat := i.args.length+1

/- The grammar of the opcodes not listed in `Op`: the id an instruction defines and the
   ids among its operands. -/
structure Grammar where
  result : Nat → List Nat → Option Nat
  uses : Nat → List Nat → List Nat

def Insn.result (g : Grammar) (i : Insn) : Option Nat :=
  match i.op with
  | .typeVoid | .typeInt | .typeFloat | .typeVector | .typeArray | .typeStruct | .typePointer
  | .typeFunction | .label => i.args[0]?
  | .undef | .constant | .specConstantOp | .function | .functionParameter | .functionCall
  | .var | .load | .accessChain | .compositeExtract | .bitcast | .phi => i.args[1]?
  | .name | .memoryModel | .entryPoint | .executionMode | .capability | .functionEnd | .store
  | .decorate | .memberDecorate | .ret | .returnValue | .lifetimeStart | .lifetimeStop => none
  | .other c => g.result c i.args

/-- A word of a literal string that holds its final zero byte. -/
def endsString (w : Nat) : Bool :=
  w % 256 == 0 || w/256 % 256 == 0 || w/65536 % 256 == 0 || w/16777216 % 256 == 0

/-- What follows the literal string. -/
def afterString (ws : List Nat) : List Nat := (ws.dropWhile (fun w => !endsString w)).drop 1

def Insn.uses (g : Grammar) (i : Insn) : List Nat :=
  match i.op with
  | .undef | .name | .executionMode | .constant | .functionParameter | .decorate
  | .memberDecorate | .returnValue | .lifetimeStart | .lifetimeStop => i.args.take 1
  | .memoryModel | .capability | .typeVoid | .typeInt | .typeFloat | .functionEnd | .label
  | .ret => []
  | .entryPoint => (i.args.drop 1).take 1 ++ afterString (i.args.drop 2)
  | .typeVector => (i.args.drop 1).take 1
  | .typeArray | .typeStruct | .typeFunction => i.args.drop 1
  | .typePointer => i.args.drop 2
  | .specConstantOp =>
    if i.arg 2 = 124 then i.args.take 1 ++ i.args.drop 3 else g.uses i.op.code i.args
  | .function | .var => i.args.take 1 ++ i.args.drop 3
  | .functionCall | .accessChain | .bitcast | .phi => i.args.take 1 ++ i.args.drop 2
  | .compositeExtract => i.args.take 1 ++ (i.args.drop 2).take 1
  | .load => i.args.take 1 ++ (i.args.drop 2).take 1 ++
      if i.args.length ≤ 3 then [] else g.uses i.op.code i.args
  | .store => i.args.take 2 ++ if i.args.length ≤ 2 then [] else g.uses i.op.code i.args
  | .other c => g.uses c i.args

structure Block where
  label : Nat
  insns : List Insn
deriving DecidableEq, Repr

/- `header`: what stands between OpFunction and the first OpLabel, parameters and line
   information. `trail`: line information after OpFunctionEnd. -/
structure Fn where
  retType : Nat
  id : Nat
  control : Nat
  fnType : Nat
  header : List Insn
  blocks : List Block
  trail : List Insn := []
deriving DecidableEq, Repr

/-- Everything before the first OpFunction, and the functions. -/
structure Module where
  bound : Nat
  globals : List Insn
  fns : List Fn
deriving DecidableEq, Repr

def Block.code (b : Block) : List Insn := ⟨.label, [b.label]⟩ :: b.insns

def Fn.head (f : Fn) : Insn := ⟨.function, [f.retType, f.id, f.control, f.fnType]⟩

def Fn.code (f : Fn) : List Insn :=
  f.head :: f.header ++ f.blocks.flatMap Block.code ++ ⟨.functionEnd, []⟩ :: f.trail

def Module.code (m : Module) : List Insn := m.globals ++ m.fns.flatMap Fn.code

def Fn.insns (f : Fn) : List Insn := f.blocks.flatMap Block.insns

def isParam (i : Insn) : Bool := i.op == .functionParameter

def Fn.params (f : Fn) : List Nat := (f.header.filter isParam).map (·.arg 1)

def Fn.paramTypes (f : Fn) : List Nat := (f.header.filter isParam).map (·.arg 0)

def results (g : Grammar) (is : List Insn) : List Nat := is.filterMap (·.result g)

def Block.defs (g : Grammar) (b : Block) : List Nat := b.label :: results g b.insns

/-- Ids of a function: its own, its parameters, its labels and what its blocks define. -/
def Fn.defs (g : Grammar) (f : Fn) : List Nat :=
  f.id :: f.params ++ f.blocks.flatMap (Block.defs g)

def Module.defs (g : Grammar) (m : Module) : List Nat :=
  results g m.globals ++ m.fns.flatMap (Fn.defs g)

/-- No instruction of the block uses what a later one defines. OpPhi reads at the end of
the predecessor. -/
def Block.Ordered (g : Grammar) (b : Block) : Prop :=
  b.insns.Pairwise fun i j => i.op ≠ .phi → ∀ x ∈ i.uses g, j.result g ≠ some x

instance (g : Grammar) (b : Block) : Decidable (b.Ordered g) :=
  inferInstanceAs (Decidable (List.Pairwise _ _))

/-- Each id is defined once and lies below the bound, and what an instruction uses is
defined, in its own block before it. -/
structure Module.ValidIds (g : Grammar) (m : Module) : Prop where
  nodup : (m.defs g).Nodup
  below : ∀ r ∈ m.defs g, 0 < r ∧ r < m.bound
  closed : ∀ i ∈ m.code, ∀ x ∈ i.uses g, x ∈ m.defs g
  ordered : ∀ f ∈ m.fns, ∀ b ∈ f.blocks, b.Ordered g

end Lagfx.Spirv
