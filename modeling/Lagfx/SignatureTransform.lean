import Lagfx.Spirv

/-! Signature transform: a scan for the entry function and the ids it needs, then one
pass that drops, rewrites and splices instructions. -/
namespace Lagfx.Spirv

inductive SpvStage where
  | vertex
  | fragment
deriving DecidableEq, Repr

def SpvStage.code : SpvStage → Nat
  | .vertex => 0
  | .fragment => 4

inductive SpvStatus where
  | invalidArg
  | protocol
  | outOfMemory
deriving DecidableEq, Repr

/-- `overrun`: words are written past the output buffer. -/
inductive SpvResult where
  | status (e : SpvStatus)
  | overrun
  | ok (words : List Nat)
deriving DecidableEq, Repr

def maxParams : Nat := 8
def maxStructMembers : Nat := 8
def maxPointerTypes : Nat := 64
def maxLifetimeOperands : Nat := 16
def spvMagic : Nat := 0x07230203

def Insn.pack (i : Insn) : List Nat := ((i.words % 65536)*65536+i.op.code) :: i.args

/- Framing loop; `fuel` is the number of words left. -/
def decodeLoop : Nat → List Nat → Option (List Insn)
  | _, [] => some []
  | 0, _ :: _ => none
  | fuel+1, w :: ws =>
    let wc := w/65536 % 65536
    if wc = 0 ∨ ws.length < wc-1 then none
    else
      match decodeLoop fuel (ws.drop (wc-1)) with
      | none => none
      | some is => some (⟨Op.ofCode (w % 65536), ws.take (wc-1)⟩ :: is)

def decodeInsns (ws : List Nat) : Option (List Insn) := decodeLoop ws.length ws

def bytesOf (ws : List Nat) : List Nat :=
  ws.flatMap fun w => [w % 256, w/256 % 256, w/65536 % 256, w/16777216 % 256]

/-- A literal string against a C string. -/
def strEq : List Nat → List Nat → Bool
  | [], _ => false
  | b :: bs, s =>
    if b = 0 then s.isEmpty
    else
      match s with
      | [] => false
      | c :: cs => b == c && strEq bs cs

def packString : List Nat → List Nat
  | a :: b :: c :: d :: s => (a+b*256+c*65536+d*16777216) :: packString s
  | [a, b, c] => [a+b*256+c*65536]
  | [a, b] => [a+b*256]
  | [a] => [a]
  | [] => [0]

structure ScanState where
  bound : Nat
  fnId : Nat := 0
  foundFn : Bool := false
  fnTypeId : Nat := 0
  fnRetTypeId : Nat := 0
  retIsStruct : Bool := false
  retMemberTypes : List Nat := []
  paramTypes : List Nat := []
  voidId : Nat := 0
  uintTypeId : Nat := 0
  uintZeroId : Nat := 0
  pointerTypeIds : List Nat := []
  lifetimeOperandIds : List Nat := []
  hasShaderCap : Bool := false
deriving DecidableEq, Repr

/-- One instruction of the first pass. -/
def scanInsn (entry : List Nat) (s : ScanState) (i : Insn) : ScanState :=
  match i.op with
  | .capability =>
    if 1 ≤ i.args.length ∧ i.arg 0 = 1 then { s with hasShaderCap := true } else s
  | .name =>
    if 2 ≤ i.args.length ∧ strEq (bytesOf (i.args.drop 1)) entry then
      { s with fnId := i.arg 0, foundFn := true }
    else s
  | .typeVoid => if 1 ≤ i.args.length then { s with voidId := i.arg 0 } else s
  | .typeInt =>
    if 3 ≤ i.args.length ∧ i.arg 1 = 32 ∧ i.arg 2 = 0 then { s with uintTypeId := i.arg 0 }
    else s
  | .typePointer =>
    if 1 ≤ i.args.length ∧ s.pointerTypeIds.length < maxPointerTypes then
      { s with pointerTypeIds := s.pointerTypeIds ++ [i.arg 0] }
    else s
  | .constant =>
    if 3 ≤ i.args.length ∧ s.uintTypeId ≠ 0 ∧ i.arg 0 = s.uintTypeId ∧ i.arg 2 = 0
        ∧ s.uintZeroId = 0 then
      { s with uintZeroId := i.arg 1 }
    else s
  | .lifetimeStart | .lifetimeStop =>
    if 1 ≤ i.args.length ∧ s.lifetimeOperandIds.length < maxLifetimeOperands then
      { s with lifetimeOperandIds := s.lifetimeOperandIds ++ [i.arg 0] }
    else s
  | _ => s

def isFunctionOf (fnId operands : Nat) (i : Insn) : Bool :=
  i.op == .function && decide (operands ≤ i.args.length) && i.arg 1 == fnId

def isTypeFunctionOf (id : Nat) (i : Insn) : Bool :=
  i.op == .typeFunction && decide (2 ≤ i.args.length) && i.arg 0 == id

def isReturnTypeOf (id : Nat) (i : Insn) : Bool :=
  decide (1 ≤ i.args.length) && i.arg 0 == id &&
    (i.op == .typeStruct || i.op == .typeVector || i.op == .typeFloat || i.op == .typeInt)

/-- Parameter types of the entry's function type. -/
def scanSignature (insns : List Insn) (fn : Insn) : Except SpvStatus (List Nat) :=
  match insns.find? (isTypeFunctionOf (fn.arg 3)) with
  | none => .error .protocol
  | some ty =>
    if ty.arg 1 ≠ fn.arg 0 then .error .protocol
    else if maxParams < ty.args.length-2 then .error .protocol
    else .ok (ty.args.drop 2)

/-- Member types of the return type, and whether it is a struct. -/
def scanReturnType (insns : List Insn) (ret : Nat) : Except SpvStatus (Bool × List Nat) :=
  match insns.find? (isReturnTypeOf ret) with
  | none => .error .protocol
  | some ty =>
    if ty.op = .typeStruct then
      if maxStructMembers < ty.args.length-1 then .error .protocol
      else .ok (true, ty.args.drop 1)
    else .ok (false, [ret])

def scanModule (bound : Nat) (insns : List Insn) (entry : List Nat) :
    Except SpvStatus ScanState :=
  let s := insns.foldl (scanInsn entry) { bound := bound }
  if !s.foundFn then .error .invalidArg
  else
    match insns.find? (isFunctionOf s.fnId 4) with
    | none => .error .protocol
    | some fn =>
      if fn.arg 0 = 0 ∨ fn.arg 3 = 0 then .error .protocol
      else
        match scanSignature insns fn with
        | .error e => .error e
        | .ok params =>
          match scanReturnType insns (fn.arg 0) with
          | .error e => .error e
          | .ok (isStruct, members) =>
            .ok { s with
              fnTypeId := fn.arg 3, fnRetTypeId := fn.arg 0, paramTypes := params
              retIsStruct := isStruct, retMemberTypes := members }

/- `outs` and `ins`: pointer type and variable of each output member and each
   parameter. -/
structure SynthIds where
  voidId : Nat
  voidFnTypeId : Nat
  outs : List (Nat × Nat)
  ins : List (Nat × Nat)
  uintTypeId : Nat
  uintZeroId : Nat
deriving DecidableEq, Repr

/-- Two fresh ids for each of `n`. -/
def freshPairs (next n : Nat) : List (Nat × Nat) :=
  (List.range n).map fun k => (next+2*k, next+2*k+1)

/-- The id that was found, else a fresh one. -/
def reuseOr (id next : Nat) : Nat := if id ≠ 0 then id else next

/-- Next fresh id after `reuseOr`. -/
def afterReuse (id next : Nat) : Nat := if id ≠ 0 then next else next+1

def planSynthIds (s : ScanState) : SynthIds × Nat :=
  let f₁ := afterReuse s.voidId s.bound
  let f₂ := f₁+1+2*s.retMemberTypes.length
  let f₃ := f₂+2*s.paramTypes.length
  let f₄ := afterReuse s.uintTypeId f₃
  ({ voidId := reuseOr s.voidId s.bound
     voidFnTypeId := f₁
     outs := freshPairs (f₁+1) s.retMemberTypes.length
     ins := freshPairs f₂ s.paramTypes.length
     uintTypeId := reuseOr s.uintTypeId f₃
     uintZeroId := reuseOr s.uintZeroId f₄ }, afterReuse s.uintZeroId f₄)

/-- Kernel-only FunctionParameterAttribute values. -/
def funcParamAttrIsKernelOnly (v : Nat) : Bool := v == 5 || v == 6 || v == 7

/-- CPacked, LinkageAttributes, FPFastMathMode, MaxByteOffset, and FuncParamAttr with a
Kernel-only value; `rest` starts at the decoration. -/
def dropsDecoration : List Nat → Bool
  | [] => false
  | dec :: rest =>
    dec == 10 || dec == 41 || dec == 40 || dec == 45 ||
      (dec == 38 && !rest.isEmpty && funcParamAttrIsKernelOnly (rest.getD 0 0))

def drops (inTarget : Bool) (i : Insn) : Bool :=
  match i.op with
  | .capability => decide (1 ≤ i.args.length) && (i.arg 0 == 5 || i.arg 0 == 6)
  | .decorate => dropsDecoration (i.args.drop 1)
  | .memberDecorate => dropsDecoration (i.args.drop 2)
  | .functionParameter => inTarget
  | .lifetimeStart | .lifetimeStop => true
  | _ => false

/-- What the emit pass reads and never changes; `params` are the entry's parameter ids. -/
structure EmitCtx where
  scan : ScanState
  ids : SynthIds
  entry : List Nat
  stage : SpvStage
  params : List Nat

structure EmitState where
  injectedZoneA : Bool := false
  injectedPreTypes : Bool := false
  injectedPreFunction : Bool := false
  inTargetFn : Bool := false
  emittedLoads : Bool := false
  next : Nat
deriving DecidableEq, Repr

def EmitCtx.outVars (c : EmitCtx) : List Nat := c.ids.outs.map (·.2)

def EmitCtx.inVars (c : EmitCtx) : List Nat := c.ids.ins.map (·.2)

def EmitCtx.entryPoint (c : EmitCtx) : Insn :=
  ⟨.entryPoint, c.stage.code :: c.scan.fnId :: packString c.entry ++ (c.outVars ++ c.inVars)⟩

/-- After OpMemoryModel. -/
def EmitCtx.zoneA (c : EmitCtx) : List Insn :=
  (if c.scan.hasShaderCap then [] else [⟨.capability, [1]⟩]) ++ [c.entryPoint] ++
    (if c.stage = .fragment then [⟨.executionMode, [c.scan.fnId, 7]⟩] else [])

def decorateBuiltin (target builtin : Nat) : Insn := ⟨.decorate, [target, 11, builtin]⟩

def decorateLocation (target loc : Nat) : Insn := ⟨.decorate, [target, 30, loc]⟩

def outputDecoration (stage : SpvStage) (v k : Nat) : Insn :=
  if stage = .vertex ∧ k = 0 then decorateBuiltin v 0
  else if stage = .vertex then decorateLocation v (k-1)
  else decorateLocation v k

def inputDecoration (stage : SpvStage) (v k : Nat) : Insn :=
  if stage = .vertex ∧ k = 0 then decorateBuiltin v 42 else decorateLocation v k

/-- Before the first type. -/
def EmitCtx.decorations (c : EmitCtx) : List Insn :=
  c.outVars.zipIdx.map (fun v => outputDecoration c.stage v.1 v.2) ++
    c.inVars.zipIdx.map (fun v => inputDecoration c.stage v.1 v.2)

/-- Pointer type and variable of storage class `storage`. -/
def interfaceVar (storage : Nat) (p : (Nat × Nat) × Nat) : List Insn :=
  [⟨.typePointer, [p.1.1, storage, p.2]⟩, ⟨.var, [p.1.1, p.1.2, storage]⟩]

/-- Before the first OpFunction. -/
def EmitCtx.declarations (c : EmitCtx) : List Insn :=
  (if c.scan.voidId = 0 then [⟨.typeVoid, [c.ids.voidId]⟩] else []) ++
  (if c.scan.uintTypeId = 0 then [⟨.typeInt, [c.ids.uintTypeId, 32, 0]⟩] else []) ++
  (if c.scan.uintZeroId = 0 then [⟨.constant, [c.ids.uintTypeId, c.ids.uintZeroId, 0]⟩]
    else []) ++
  [⟨.typeFunction, [c.ids.voidFnTypeId, c.ids.voidId]⟩] ++
  (c.ids.outs.zip c.scan.retMemberTypes).flatMap (interfaceVar 3) ++
  (c.ids.ins.zip c.scan.paramTypes).flatMap (interfaceVar 1)

/-- Each parameter id, loaded from its Input variable. -/
def EmitCtx.loads (c : EmitCtx) : List Insn :=
  ((c.params.zip c.scan.paramTypes).zip c.inVars).map fun p =>
    ⟨.load, [p.1.2, p.1.1, p.2]⟩

/-- OpReturnValue as extracts and stores, and the next fresh id. -/
def EmitCtx.returnStores (c : EmitCtx) (next v : Nat) : List Insn :=
  if c.scan.retIsStruct then
    (c.outVars.zip c.scan.retMemberTypes).zipIdx.flatMap fun p =>
      [⟨.compositeExtract, [p.1.2, next+p.2, v, p.2]⟩, ⟨.store, [p.1.1, next+p.2]⟩]
  else [⟨.store, [c.outVars.getD 0 0, v]⟩]

def EmitCtx.afterReturn (c : EmitCtx) (next : Nat) : Nat :=
  if c.scan.retIsStruct then next+c.scan.retMemberTypes.length else next

def isSpecBitcast (i : Insn) : Bool :=
  i.op == .specConstantOp && decide (3 ≤ i.args.length) && i.arg 2 == 124

/-- OpBitcast to a recorded pointer type. -/
def EmitCtx.isPointerCast (c : EmitCtx) (i : Insn) : Bool :=
  i.op == .bitcast && decide (3 ≤ i.args.length) && c.scan.pointerTypeIds.contains (i.arg 0)

/-- A pointer cast whose result is a recorded lifetime operand. -/
def EmitCtx.dropsCast (c : EmitCtx) (i : Insn) : Bool :=
  c.isPointerCast i && c.scan.lifetimeOperandIds.contains (i.arg 1)

def EmitCtx.asAccessChain (c : EmitCtx) (i : Insn) : Insn :=
  ⟨.accessChain, [i.arg 0, i.arg 1, i.arg 2, c.ids.uintZeroId]⟩

/-- An instruction of the entry function. -/
def emitInTarget (c : EmitCtx) (st : EmitState) (i : Insn) : EmitState × List Insn :=
  if drops true i then (st, [])
  else if i.op = .label then (st, [i])
  else
    let pre := if !st.emittedLoads && i.op != .var then c.loads else []
    let st := { st with emittedLoads := st.emittedLoads || i.op != .var }
    if i.op = .returnValue ∧ 1 ≤ i.args.length then
      ({ st with next := c.afterReturn st.next },
        pre ++ (c.returnStores st.next (i.arg 0) ++ [⟨.ret, []⟩]))
    else (st, pre ++ [i])

/-- After the casts and the three splices. -/
def emitRest (c : EmitCtx) (st : EmitState) (i : Insn) : EmitState × List Insn :=
  if isFunctionOf c.scan.fnId 4 i then
    ({ st with inTargetFn := true, emittedLoads := false },
      [⟨.function, [c.ids.voidId, c.scan.fnId, 0, c.ids.voidFnTypeId]⟩])
  else
    let st := if i.op = .functionEnd then { st with inTargetFn := false } else st
    if st.inTargetFn then emitInTarget c st i
    else (st, if drops false i then [] else [i])

def emitInsn (c : EmitCtx) (st : EmitState) (i : Insn) : EmitState × List Insn :=
  if isSpecBitcast i then (st, [⟨.undef, [i.arg 0, i.arg 1]⟩])
  else if c.isPointerCast i then
    (st, if c.scan.lifetimeOperandIds.contains (i.arg 1) then [] else [c.asAccessChain i])
  else if !st.injectedZoneA && i.op == .memoryModel then
    ({ st with injectedZoneA := true }, i :: c.zoneA)
  else
    let preTypes := if !st.injectedPreTypes && i.op.isType then c.decorations else []
    let preFunction :=
      if !st.injectedPreFunction && i.op == .function then c.declarations else []
    let r := emitRest c { st with
      injectedPreTypes := st.injectedPreTypes || i.op.isType
      injectedPreFunction := st.injectedPreFunction || i.op == .function } i
    (r.1, preTypes ++ preFunction ++ r.2)

def emitAll (c : EmitCtx) : EmitState → List Insn → EmitState × List Insn
  | st, [] => (st, [])
  | st, i :: is =>
    let r := emitInsn c st i
    let q := emitAll c r.1 is
    (q.1, r.2 ++ q.2)

/-- The parameters that follow the entry's OpFunction. -/
def entryParams (insns : List Insn) (fnId : Nat) : List Nat :=
  (((insns.dropWhile (fun i => !isFunctionOf fnId 2 i)).drop 1).takeWhile fun i =>
    i.op == .functionParameter && decide (2 ≤ i.args.length)).map (·.arg 1)

/-- Words the output buffer has beyond the input's. -/
def slackWords (entry : List Nat) : Nat :=
  256+32*(maxParams+maxStructMembers)+(entry.length+4)/4

def wordCount (is : List Insn) : Nat := (is.map Insn.words).sum

def emitCtx (s : ScanState) (insns : List Insn) (entry : List Nat) (stage : SpvStage) : EmitCtx :=
  ⟨s, (planSynthIds s).1, entry, stage, entryParams insns s.fnId⟩

def emitModule (s : ScanState) (insns : List Insn) (entry : List Nat) (stage : SpvStage) :
    EmitState × List Insn :=
  emitAll (emitCtx s insns entry stage) { next := (planSynthIds s).2 } insns

def signatureTransform (words entry : List Nat) (stage : SpvStage) (mallocOk : Bool) : SpvResult :=
  if entry.isEmpty ∨ words.getD 0 0 ≠ spvMagic then .status .invalidArg
  else if words.length < 5 then .status .protocol
  else
    match decodeInsns (words.drop 5) with
    | none => .status .protocol
    | some insns =>
      match scanModule (words.getD 3 0) insns entry with
      | .error e => .status e
      | .ok s =>
        if !mallocOk then .status .outOfMemory
        else
          let r := emitModule s insns entry stage
          if words.length+slackWords entry < 5+wordCount r.2 then .overrun
          else if !r.1.injectedZoneA then .status .protocol
          else
            .ok ([words.getD 0 0, words.getD 1 0, words.getD 2 0, r.1.next % 2^32,
              words.getD 4 0] ++ r.2.flatMap Insn.pack)

end Lagfx.Spirv
