import Lagfx.EntrySelection
import Lagfx.ResourceBinding
import Lagfx.TypeLayout

/-! The interface that `translate_function.c` gives an entry function: the variables of its
arguments, their numbers and Blocks, and the views of its byte buffers. -/
namespace Lagfx
open Bits

/-- A type table: a vector and an array name their elements, and no type contains itself;
`depth` bounds how deep types contain each other. -/
structure TypeTable where
  types : List XlateType
  structName : Nat → Option (List UInt8)
  depth : Nat
  complete : ∀ t ∈ types, t.kind = .vector ∨ t.kind = .array → 2 ≤ t.op.length
  ends : ∀ ty < types.length, airTypeSizeAlign types depth ty ≠ none
  fits : types.length ≤ maxTypes

namespace TypeTable
variable (t : TypeTable)

def sizeAlign (ty : Nat) : Option (Nat × Nat) := (airTypeSizeAlign t.types t.depth ty).join

/-- What a pointer type points to. -/
def pointee (ty : Nat) : Option Nat :=
  match t.types[ty]? with
  | some ⟨.pointer, p::_⟩ => some p
  | _ => none

def isI8 (ty : Nat) : Bool :=
  match t.types[ty]? with
  | some ⟨.integer, w::_⟩ => decide (w = 8)
  | _ => false

/-- The test of `buffer_arg_nonstruct_pointee`. -/
def elementType (ty : Nat) : Bool :=
  match t.types[ty]? with
  | none => false
  | some x => x.kind.isElement && (t.sizeAlign ty).isSome

/-- 0 is for none. -/
def bufferArgNonstructPointee (ty : Nat) : Nat := if t.elementType ty = true then ty else 0

/-- The fields of a struct that may be a Block. -/
def blockFields (x : XlateType) : Bool :=
  let fields := x.op.drop 1
  decide (fields ≠ [] ∧ fields.length ≤ 32) && fields.all fun f => (t.sizeAlign f).isSome

def blockStructHandleable (ty : Nat) : Bool :=
  match t.types[ty]? with
  | none => false
  | some x =>
    if x.kind.isStruct = true then t.blockFields x
    else decide (t.bufferArgNonstructPointee ty ≠ 0)

end TypeTable

/-- A Block: the members of a struct, or a runtime array of elements. -/
inductive BlockShape where
  | struct (ty : Nat)
  | runtimeArray (elem : Nat)
deriving DecidableEq, Repr

namespace TypeTable
variable (t : TypeTable)

/-- `emit_type_arrayed_block_ptr` and `emit_type_nonstruct_block`; the caches have one Block
for a type. -/
def arrayedBlock (ty : Nat) : Option BlockShape :=
  if (t.sizeAlign ty).isSome = true then some (.runtimeArray ty) else none

/-- `emit_type_struct_block`. -/
def emitTypeStructBlock (ty : Nat) : Option BlockShape :=
  match t.types[ty]? with
  | none => none
  | some x =>
    if x.kind.isStruct = true then if t.blockFields x = true then some (.struct ty) else none
    else if t.bufferArgNonstructPointee ty ≠ 0 then t.arrayedBlock ty else none

end TypeTable

/- The function. -/

/-- An entry function and its stage. -/
structure ShaderFunction where
  table : TypeTable
  stage : XlateStage
  typeIndex : Nat
  insts : List XlateInst
  argIdBase : Nat
  localConstCount : Nat

def AirModule.structName (m : AirModule) (ty : Nat) : Option (List UInt8) :=
  (m.types[ty]?).bind fun t => m.string t.nameOffset

/-- The table is that of the module. -/
structure TypeTable.Reads (t : TypeTable) (m : AirModule) : Prop where
  types : t.types = m.xlateTypes
  structName : t.structName = m.structName

/-- The function `fn` of a module, with its body read. -/
def AirModule.shaderFunction (m : AirModule) (fn : AirFunction) (b : AirBody)
    (stage : XlateStage) (t : TypeTable) : ShaderFunction where
  table := t
  stage := stage
  typeIndex := fn.typeIndex
  insts := b.xlateInsts
  argIdBase := (xlateCtxInitFn m fn b).argIdBase
  localConstCount := b.localConstants.length

inductive VargKind where
  | vid | attr | skip
deriving DecidableEq, Repr

namespace ShaderFunction
variable (f : ShaderFunction)

def numArgs : Nat := numArgsOf f.table.types f.typeIndex

def instIdBase : Nat := u32 (f.argIdBase+f.numArgs+f.localConstCount)

theorem instIdBase_read {m : AirModule} {t : TypeTable} (h : t.Reads m) (fn : AirFunction)
    (b : AirBody) (stage : XlateStage) :
    (m.shaderFunction fn b stage t).instIdBase = (xlateCtxInitFn m fn b).instIdBase := by
  simp only [instIdBase, numArgs, AirModule.shaderFunction, h.types, xlateCtxInitFn]

def valueIdCapacity : Nat := u32 (f.instIdBase+f.insts.length+32)

/-- The arguments that have a place in the tables of the context. -/
def argCount : Nat := min f.numArgs maxVertexArgs

def argAirType (a : Nat) : Nat :=
  match f.table.types[f.typeIndex]? with
  | some ⟨.function, op⟩ => op.getD (a+2) 0
  | _ => 0

def vertexArgKind (a : Nat) : VargKind :=
  if f.numArgs ≤ a then .skip
  else match f.table.types[f.argAirType a]? with
    | none => .skip
    | some x =>
      match x.kind with
      | .integer => if f.stage = .vertex then .vid else .skip
      | .float | .vector => .attr
      | _ => .skip

/-- An opaque resource of Apple's is known by the name of its struct. -/
def namedResource (name : Option (List UInt8)) : ResourceKind :=
  match name with
  | none => .buffer
  | some nm =>
    let p := if cstr "struct." <+: nm then nm.drop 7 else nm
    if cstr "_texture" <:+: p ∨ cstr "_depth" <:+: p then .texture
    else if cstr "_sampler" <:+: p then .sampler
    else .buffer

/-- A pointee that says nothing leaves the address space to tell. -/
def addrspaceResource (addrspace : Nat) : Option ResourceKind :=
  if addrspace = 1 then some .texture else if addrspace = 2 then some .sampler else none

def fragResourceKind (a : Nat) : Option ResourceKind :=
  if f.numArgs ≤ a then none
  else match f.table.types[f.argAirType a]? with
    | some ⟨.pointer, p::addrspace::_⟩ =>
      match f.table.types[p]? with
      | none => addrspaceResource addrspace
      | some x =>
        if x.kind = .structNamed then some (namedResource (f.table.structName p))
        else if x.kind = .structAnon ∨ x.kind.isElement = true then some .buffer
        else addrspaceResource addrspace
    | _ => none

end ShaderFunction

/- The accesses of the body. -/

structure BytebufView where
  arg : Nat
  pointeeTy : Nat
  arrayed : Bool
deriving DecidableEq, Repr

/-- The tables of `prescan_buffer_arg_access_types` at an instruction: `argAlias` is the argument
behind a value id plus 1, `valueView` its view plus 1, and 0 in `accessTy` is for none. -/
structure Prescan where
  nextValId : Nat
  argAlias : Nat → Nat
  valueView : Nat → Nat := fun _ => 0
  views : List BytebufView := []
  accessTy : Nat → Nat := fun _ => 0
  mixed : Nat → Bool := fun _ => false

namespace Prescan

/-- The views with that of the argument `a` as `ty`: found, or registered while there is room. -/
def withView (s : Prescan) (a ty : Nat) : List BytebufView :=
  if (∃ w ∈ s.views, w.arg = a ∧ w.pointeeTy = ty) ∨ maxBytebufViews ≤ s.views.length then s.views
  else s.views++[⟨a, ty, false⟩]

/-- A cast of the byte buffer `a`: its result has the view, if there is one. -/
def registerView (s : Prescan) (a ty : Nat) : Prescan :=
  let views := s.withView a ty
  let v := views.findIdx fun w => decide (w.arg = a ∧ w.pointeeTy = ty)
  { s with
    views := views
    valueView := if v < views.length then Function.update s.valueView s.nextValId (v+1)
      else s.valueView }

end Prescan

namespace ShaderFunction
variable (f : ShaderFunction)

def isBytebuf (a : Nat) : Bool :=
  decide (a < f.argCount) && (f.table.pointee (f.argAirType a)).any f.table.isI8

def prescanStart : Prescan where
  nextValId := f.instIdBase
  argAlias := (List.range f.argCount).foldl
    (fun al a => Function.update al (u32 (f.argIdBase+a)) (a+1)) fun _ => 0

/-- A view whose first index is the result of an instruction is an array of its type. -/
def prescanIndex (s : Prescan) (ptrRel idxRel : Nat) : Prescan :=
  let pid := resolveRelative ptrRel s.nextValId
  if pid < f.valueIdCapacity ∧ s.valueView pid ≠ 0 ∧
      f.instIdBase ≤ resolveRelative idxRel s.nextValId then
    { s with views := s.views.modify (s.valueView pid-1) fun v => { v with arrayed := true } }
  else s

/-- A cast that keeps a pointer aliases it; one of a byte buffer is a view. -/
def prescanCast (s : Prescan) (srcRel destTy castOp : Nat) : Prescan :=
  let src := resolveRelative srcRel s.nextValId
  if (castOp = 11 ∨ castOp = 12) ∧ src < f.valueIdCapacity ∧
      s.nextValId < f.valueIdCapacity then
    let s' := { s with
      argAlias := Function.update s.argAlias s.nextValId (s.argAlias src)
      valueView := Function.update s.valueView s.nextValId (s.valueView src) }
    match f.table.pointee destTy with
    | none => s'
    | some p =>
      if s.argAlias src ≠ 0 ∧ f.isBytebuf (s.argAlias src-1) = true ∧ f.table.isI8 p = false then
        s'.registerView (s.argAlias src-1) p
      else s'
  else s

/-- The type 0 is taken for no access. -/
def prescanAccess (s : Prescan) (ptrRel acc : Nat) : Prescan :=
  let ptr := resolveRelative ptrRel s.nextValId
  if acc ≠ 0 ∧ ptr < f.valueIdCapacity ∧ s.argAlias ptr ≠ 0 ∧ s.valueView ptr = 0 then
    let a := s.argAlias ptr-1
    { s with
      mixed := if s.accessTy a ≠ 0 ∧ s.accessTy a ≠ acc then Function.update s.mixed a true
        else s.mixed
      accessTy := Function.update s.accessTy a acc }
  else s

def prescanCode (s : Prescan) (i : XlateInst) : Prescan :=
  let op k := u32 (i.ops.getD k 0)
  match i.code with
  | .gep | .gepOld =>
    if 4 ≤ i.ops.length then f.prescanAccess (f.prescanIndex s (op 2) (op 3)) (op 2) (op 1) else s
  | .load => if 2 ≤ i.ops.length then f.prescanAccess s (op 0) (op 1) else s
  | .cast => if 3 ≤ i.ops.length then f.prescanCast s (op 0) (op 1) (op 2) else s
  | _ => s

def prescanInst (s : Prescan) (i : XlateInst) : Prescan :=
  let s' := f.prescanCode s i
  { s' with
    nextValId := if instProducesValue f.table.types i = true then u32 (s'.nextValId+1)
      else s'.nextValId }

/-- The loop of `prescan_buffer_arg_access_types` over the body. -/
def prescan : Prescan := f.insts.foldl f.prescanInst f.prescanStart

/-- Its overrides of the declared pointees, where all accesses agree; 0 is for none. -/
def argPointeeOverride (a : Nat) : Nat :=
  let s := f.prescan
  if f.argCount ≤ a ∨ s.accessTy a = 0 ∨ s.mixed a = true then 0
  else match f.table.pointee (f.argAirType a) with
    | none => 0
    | some declared =>
      if s.accessTy a = declared then 0
      else if f.table.bufferArgNonstructPointee declared = 0 then 0
      else if f.table.bufferArgNonstructPointee (s.accessTy a) = 0 then 0
      else s.accessTy a

def bufferArgStructTy (a : Nat) : Nat :=
  if a < maxVertexArgs ∧ f.argPointeeOverride a ≠ 0 then f.argPointeeOverride a
  else (f.table.pointee (f.argAirType a)).getD 0

end ShaderFunction

/- The interface. -/

/-- The variable of an argument; an attribute has the argument's type. -/
inductive ArgVariable where
  | unbound
  | vertexIndex
  | attribute (location ty : Nat)
  | resource (kind : ResourceKind) (binding : Nat) (block : Option BlockShape)
deriving DecidableEq, Repr

/-- The variable of a view: it has the binding of its argument. -/
structure ViewVariable where
  view : BytebufView
  binding : Option Nat
  block : Option BlockShape
deriving DecidableEq, Repr

/-- An output at each location, `none` where it falls back to `vec4`; the sampler that a
fragment shader with a texture has by default. -/
structure ShaderInterface where
  args : List ArgVariable
  outputs : List (Option Nat)
  views : List ViewVariable
  defaultSampler : Option Nat
deriving DecidableEq, Repr

def ArgVariable.isAttribute : ArgVariable → Bool
  | .attribute .. => true
  | _ => false

def ArgVariable.isResource : ArgVariable → Bool
  | .resource .. => true
  | _ => false

namespace ShaderFunction
variable (f : ShaderFunction)

/-- The variable of the argument `a`, at the next free location and binding. -/
def argVariable (a location binding : Nat) : ArgVariable :=
  match f.vertexArgKind a with
  | .vid => .vertexIndex
  | .attr => .attribute location (f.argAirType a)
  | .skip =>
    match f.fragResourceKind a with
    | none => .unbound
    | some .buffer =>
      if f.table.blockStructHandleable (f.bufferArgStructTy a) = true then
        .resource .buffer binding (f.table.emitTypeStructBlock (f.bufferArgStructTy a))
      else .unbound
    | some kind => .resource kind binding none

def argVariables : List Nat → Nat → Nat → List ArgVariable
  | [], _, _ => []
  | a::as, location, binding =>
    let v := f.argVariable a location binding
    v :: argVariables as (if v.isAttribute = true then location+1 else location)
      (if v.isResource = true then binding+1 else binding)

def outputType (ty : Nat) : Option Nat :=
  match f.table.types[ty]? with
  | none => none
  | some x => if x.kind = .float ∨ x.kind = .vector then some ty else none

def returnAirType : Nat :=
  match f.table.types[f.typeIndex]? with
  | some ⟨.function, _::ret::_⟩ => ret
  | _ => airTypeNone

/-- A struct is returned member by member; a fragment shader has at least one output. -/
def outputTypes : List (Option Nat) :=
  let single := if f.stage = .fragment then [f.outputType f.returnAirType] else []
  match f.table.types[f.returnAirType]? with
  | none => single
  | some x =>
    let members := x.op.drop 1
    if x.kind.isStruct = true ∧ members ≠ [] then (members.take maxVertexArgs).map f.outputType
    else single

def viewVariable (args : List ArgVariable) (v : BytebufView) : ViewVariable :=
  match args[v.arg]? with
  | some (.resource kind binding _) =>
    ⟨v, some binding,
      if kind ≠ .buffer then none
      else if v.arrayed = true then f.table.arrayedBlock v.pointeeTy
      else f.table.emitTypeStructBlock v.pointeeTy⟩
  | _ => ⟨v, none, none⟩

def needsDefaultSampler : Bool :=
  (List.range f.argCount).any fun a => decide (f.fragResourceKind a = some .texture)

/-- `prescan_buffer_arg_access_types`, then what `emit_prologue` and `emit_arg_resource_vars`
put out of variables and decorations. -/
def interface : ShaderInterface :=
  let args := f.argVariables (List.range f.argCount) 0 0
  { args := args
    outputs := f.outputTypes
    views := f.prescan.views.map (f.viewVariable args)
    defaultSampler := if f.stage = .fragment ∧ f.needsDefaultSampler = true then
      some (args.countP ArgVariable.isResource) else none }

end ShaderFunction
end Lagfx
