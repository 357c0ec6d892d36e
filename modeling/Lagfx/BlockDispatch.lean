import Lagfx.ConstantBlocks
import Lagfx.OperandTypes
import Lagfx.SpirvRun

/-! Block dispatch: a body of several blocks as one loop around an OpSwitch, its PHIs and the
values that cross blocks in variables. What an emitter makes of one instruction, and the ids
of types and constants, are parameters. -/
namespace Lagfx.Spirv

/- The blocks of a body. -/

/-- `inst_is_terminator`. -/
def instIsTerminator : AirInstCode → Bool
  | .ret | .br | .switch | .unreachable | .indirectbr => true
  | _ => false

/-- `lagfx_bb_t`: each instruction with the value number it finds, the terminator apart. -/
structure AirBb where
  body : List (Nat × XlateInst)
  term : Nat × XlateInst
deriving DecidableEq, Repr

/-- Split after each terminator; nothing may be left over. -/
def partitionFrom (acc : List (Nat × XlateInst)) : List (Nat × XlateInst) → Option (List AirBb)
  | [] => if acc = [] then some [] else none
  | p :: ps =>
    if instIsTerminator p.2.code then (partitionFrom [] ps).map (⟨acc, p⟩ :: ·)
    else partitionFrom (acc ++ [p]) ps

/-- Operand `k`, as an `uint32_t`. -/
def opAt (i : XlateInst) (k : Nat) : Nat := u32 (i.ops.getD k 0)

/-- The value of an incoming pair of the PHI with number `valno`. -/
def incomingId (valno raw : Nat) : Nat := (((valno : Int)-signRotated raw) % 2^32).toNat

/-- The value a PHI takes on the edge from `pred`: that of the first pair with this block. -/
def phiIncoming (p : Nat × XlateInst) (pred : Nat) : Option Nat :=
  if p.2.ops.length < 3 then none
  else
    ((List.range ((p.2.ops.length-1)/2)).find? fun k => opAt p.2 (2+2*k) == pred).map fun k =>
      incomingId p.1 (p.2.ops.getD (1+2*k) 0)

/-- The cases of a SWITCH: absolute value ids and blocks. -/
def switchCases (i : XlateInst) : List (Nat × Nat) :=
  (List.range ((i.ops.length-3)/2)).map fun k => (opAt i (3+2*k), opAt i (4+2*k))

/-- PHIs lead their block. -/
def AirBb.phis (b : AirBb) : List (Nat × XlateInst) := b.body.takeWhile (·.2.code == .phi)

structure Recorded where
  airType : Nat
  spvType : Nat
  pointer : Bool

/- What an emitter makes of an instruction: the id it binds the value to, 0 if it binds none,
   and how many ids it takes. -/
structure Emission where
  val : Nat
  code : List Insn
  width : Nat

/- What the lowering takes as given. `recorded`: what the emitters note of a value, its
   AIR type, its SPIR-V type (0 for none) and whether it is a pointer. `operands`: the relative
   operands an instruction resolves, in order. `emit`: from the next id and the resolved
   operands. `helperRet`: the undefined value a helper returns at the cap, when it returns one. -/

structure Dispatch where
  ctx : XlateCtx
  recorded : Nat → Recorded
  airTypeId : Nat → Nat
  boolId : Nat
  vecId : Nat → Nat
  uintId : Nat
  const : Nat → Nat
  undef : Nat → Nat
  ptrId : Nat → Nat
  operands : XlateInst → List Nat
  emit : Nat × XlateInst → Nat → List Nat → Emission
  helperRet : Option Nat

/-- The part of `xlate_ctx_t` that changes. An entry of 0 is none. -/
structure DispatchCtx where
  nextId : Nat
  bound : Nat → Nat
  spillVar : Nat → Nat := fun _ => 0
  spillType : Nat → Nat := fun _ => 0
  phiVar : Nat → Nat := fun _ => 0
  phiType : Nat → Nat := fun _ => 0
  locals : List (Nat × Nat) := []
  curBb : Nat := 0

namespace Dispatch
variable (d : Dispatch)

def types : List XlateType := d.ctx.layout.types

def produces (p : Nat × XlateInst) : Bool := instProducesValue d.types p.2

/-- The blocks, when there are two of them at least. -/
def partition : Option (List AirBb) :=
  match partitionFrom [] (valueWalk d.types d.ctx.layout.instIdBase d.ctx.layout.insts) with
  | none => none
  | some bbs => if bbs.length < 2 then none else some bbs

/-- The entry of `value_def_bb`: ALLOCAs count as block 0, and 0xFFFF means none. -/
def defBbIn (k : Nat) (b : AirBb) (v : Nat) : Option Nat :=
  (b.body.find? fun p => p.1 == v && d.produces p).bind fun p =>
    if p.2.code = .alloca then some 0
    else if k % 2^16 = 0xFFFF then none
    else some (k % 2^16)

def defBb (bbs : List AirBb) (v : Nat) : Option Nat :=
  bbs.zipIdx.findSome? fun b => d.defBbIn b.2 b.1 v

def defInst (v : Nat) : Option XlateInst :=
  ((valueWalk d.types d.ctx.layout.instIdBase d.ctx.layout.insts).find? fun p =>
    p.1 == v && d.produces p).map (·.2)

/- The inference of `dispatch_precreate_spills`: an AIR type, and the lanes of a boolean. -/

/-- The declared types of arguments and constants. -/
def seedType (v : Nat) : Nat :=
  let l := d.ctx.layout
  let mcBase := l.moduleValCount-d.ctx.moduleConstants.length
  let lcBase := l.argIdBase+l.numArgs
  if l.argIdBase+l.numArgs ≤ v ∧ v < lcBase+d.ctx.localConstants.length then
    (d.ctx.localConstants[v-lcBase]?.map AirConstant.typeIndex).getD airTypeNone
  else if mcBase ≤ v ∧ v < mcBase+d.ctx.moduleConstants.length then
    (d.ctx.moduleConstants[v-mcBase]?.map AirConstant.typeIndex).getD airTypeNone
  else if l.argIdBase ≤ v ∧ v < l.argIdBase+l.numArgs then
    d.ctx.argAirTypeIds.getD (v-l.argIdBase) airTypeNone
  else airTypeNone

def inferType (ity : Nat → Nat) (p : Nat × XlateInst) : Nat × Nat :=
  let opnd := resolveRelative (opAt p.2 0) p.1
  let operand := if opnd < d.ctx.valueIdCapacity then ity opnd else airTypeNone
  let vector := (d.types[operand]?).filter (·.kind = .vector)
  match p.2.code with
  | .phi => (if 1 ≤ p.2.ops.length then opAt p.2 0 else airTypeNone, 0)
  | .load | .cast => (if 2 ≤ p.2.ops.length then opAt p.2 1 else airTypeNone, 0)
  | .call => (callReturnAirType d.types p.2, 0)
  | .binop | .select | .insertelt => (operand, 0)
  | .extractelt =>
    match vector with
    | some t => (if 2 ≤ t.op.length then t.op.getD 1 0 else airTypeNone, 0)
    | none => if operand = airTypeBool then (airTypeBool, 1) else (airTypeNone, 0)
  | .cmp | .cmp2 =>
    match vector with
    | some t => (airTypeBool, if 1 ≤ t.op.length then t.op.getD 0 0 % 2^8 else 1)
    | none => (airTypeBool, 1)
  | _ => (airTypeNone, 0)

/-- Pointers and void are never spilled. -/
def spillable (ty : Nat) : Nat :=
  match d.types[ty]? with
  | some t => if t.kind = .pointer ∨ t.kind = .void then airTypeNone else ty
  | none => ty

def inferAll : List (Nat × XlateInst) → (Nat → Nat) × (Nat → Nat) → (Nat → Nat) × (Nat → Nat)
  | [], s => s
  | p :: ps, s =>
    if d.produces p then
      let t := d.inferType s.1 p
      inferAll ps (Function.update s.1 p.1 (d.spillable t.1), Function.update s.2 p.1 t.2)
    else inferAll ps s

/-- SPIR-V type of the variable made for `v` ahead of the blocks, 0 for none. -/
def preType (v : Nat) : Nat :=
  let s := d.inferAll (valueWalk d.types d.ctx.layout.instIdBase d.ctx.layout.insts)
    (d.seedType, fun _ => 0)
  if s.1 v = airTypeNone then 0
  else if s.1 v = airTypeBool then if 1 < s.2 v then d.vecId (s.2 v) else d.boolId
  else d.airTypeId (s.1 v)

/-- The type a value has where it is defined, against that of its variable. -/
def haveType (v : Nat) : Nat :=
  let r := d.recorded v
  if r.spvType ≠ 0 then r.spvType
  else if r.airType ≠ airTypeNone ∧ r.airType ≠ airTypeBool then d.airTypeId r.airType
  else 0

/-- The type of a variable that is made where the value is defined, 0 for none. -/
def siteType (v : Nat) : Nat :=
  let r := d.recorded v
  if r.pointer then 0
  else if r.airType = airTypeBool then if r.spvType ≠ 0 then r.spvType else d.boolId
  else if r.airType ≠ airTypeNone then
    match d.types[r.airType]? with
    | some t => if t.kind = .pointer ∨ t.kind = .void then 0 else d.airTypeId r.airType
    | none => d.airTypeId r.airType
  else r.spvType

end Dispatch

namespace DispatchCtx
variable (c : DispatchCtx)

def fresh : DispatchCtx := { c with nextId := c.nextId+1 }

/-- `n` ids are taken, and `v` is bound to `id`; 0 binds nothing. -/
def take (n v id : Nat) : DispatchCtx where
  nextId := c.nextId+n
  bound := if id = 0 then c.bound else Function.update c.bound v id
  spillVar := c.spillVar
  spillType := c.spillType
  phiVar := c.phiVar
  phiType := c.phiType
  locals := c.locals
  curBb := c.curBb

/-- An OpVariable for the entry block; its id is `c.nextId`. -/
def localVar (ptrType : Nat) : DispatchCtx :=
  { c with nextId := c.nextId+1, locals := c.locals ++ [(ptrType, c.nextId)] }

/-- A variable for the value `v`. -/
def spillAt (v ty ptrType : Nat) : DispatchCtx :=
  { c.localVar ptrType with
    spillVar := Function.update c.spillVar v c.nextId
    spillType := Function.update c.spillType v ty }

/-- The context at the start of block `k`. -/
def enter (k : Nat) : DispatchCtx := { c with curBb := k }

end DispatchCtx

def opLoad (ty id var : Nat) : Insn := ⟨.load, [ty, id, var]⟩
def opStore (var id : Nat) : Insn := ⟨.store, [var, id]⟩

/- A step of the lowering: what it returns, what it emits and what it leaves. -/
structure Emitted (α : Type) where
  val : α
  code : List Insn
  ctx : DispatchCtx

def resolveAll (f : DispatchCtx → Nat → Emitted Nat) (c : DispatchCtx) :
    List Nat → Emitted (List Nat)
  | [] => ⟨[], [], c⟩
  | v :: vs =>
    let r := f c v
    let rs := resolveAll f r.ctx vs
    ⟨r.val :: rs.val, r.code ++ rs.code, rs.ctx⟩

namespace Dispatch
variable (d : Dispatch) (bbs : List AirBb)

/-- A value of another block than the entry's and `cur`. -/
def crosses (cur v : Nat) : Bool :=
  decide (d.ctx.layout.instIdBase ≤ v) &&
    match d.defBb bbs v with
    | none => false
    | some k => k != 0 && k != cur

/- `resolve_value_spv`. `depth`: how often a pointer may still be made anew. -/
def resolveValueSpv (depth : Nat) (c : DispatchCtx) (v : Nat) : Emitted Nat :=
  if d.ctx.valueIdCapacity ≤ v then ⟨0, [], c⟩
  else if d.crosses bbs c.curBb v = false then ⟨c.bound v, [], c⟩
  else if c.spillVar v ≠ 0 then
    ⟨c.nextId, [opLoad (c.spillType v) c.nextId (c.spillVar v)], c.fresh⟩
  else if c.phiVar v ≠ 0 ∧ c.phiType v ≠ 0 then
    ⟨c.nextId, [opLoad (c.phiType v) c.nextId (c.phiVar v)], c.fresh⟩
  else
    match depth, d.defInst v with
    | depth+1, some i =>
      if i.code = .gep ∨ i.code = .gepOld ∨ i.code = .cast then
        let rs := resolveAll (resolveValueSpv depth) c
          ((d.operands i).map (resolveRelative · v))
        let e := d.emit (v, i) rs.ctx.nextId rs.val
        let c' := rs.ctx.take e.width v e.val
        ⟨c'.bound v, rs.code ++ e.code, c'⟩
      else ⟨0, [], c⟩
    | _, _ => ⟨0, [], c⟩

def rematDepth : Nat := 4

def resolve (c : DispatchCtx) (v : Nat) : Emitted Nat := d.resolveValueSpv bbs rematDepth c v

def resolveOrUndef (c : DispatchCtx) (v ty : Nat) : Emitted Nat :=
  let r := d.resolve bbs c v
  { r with val := if r.val ≠ 0 then r.val else d.undef ty }

/-- `dispatch_phi_var`: the variable behind a PHI, made on demand; 0 beyond the capacity. -/
def dispatchPhiVar (c : DispatchCtx) (v ty : Nat) : Nat × DispatchCtx :=
  if d.ctx.valueIdCapacity ≤ v then (0, c)
  else if c.phiVar v ≠ 0 then (c.phiVar v, c)
  else
    (c.nextId, { c.localVar (d.ptrId ty) with
      phiVar := Function.update c.phiVar v c.nextId
      phiType := Function.update c.phiType v ty })

/-- `dispatch_spill_result`. -/
def dispatchSpillResult (c : DispatchCtx) (v : Nat) : List Insn × DispatchCtx :=
  if d.ctx.valueIdCapacity ≤ v ∨ c.bound v = 0 then ([], c)
  else if c.spillVar v ≠ 0 then
    if d.haveType v ≠ 0 ∧ d.haveType v = c.spillType v then
      ([opStore (c.spillVar v) (c.bound v)], c)
    else ([], c)
  else if d.siteType v = 0 then ([], c)
  else
    ([opStore c.nextId (c.bound v)], c.spillAt v (d.siteType v) (d.ptrId (d.siteType v)))

/-- The store of an incoming value to the variable `var` of a PHI. -/
def storeIncoming (c : DispatchCtx) (var ty inval : Nat) : List Insn × DispatchCtx :=
  let r := d.resolve bbs c inval
  let lty := if r.ctx.phiType inval ≠ 0 then r.ctx.phiType inval else ty
  if r.val ≠ 0 then (r.code ++ [opStore var r.val], r.ctx)
  -- a PHI that nobody bound yet: its live value is in its variable
  else if inval < d.ctx.valueIdCapacity ∧ r.ctx.phiVar inval ≠ 0 ∧ lty = ty then
    (r.code ++ [opLoad lty r.ctx.nextId (r.ctx.phiVar inval), opStore var r.ctx.nextId],
      r.ctx.fresh)
  else (r.code, r.ctx)

/-- One PHI of the successor, for the edge from the current block. -/
def storePhi (c : DispatchCtx) (p : Nat × XlateInst) : List Insn × DispatchCtx :=
  if p.2.ops.length < 3 then ([], c)
  else
    let ty := d.airTypeId (opAt p.2 0)
    let v := d.dispatchPhiVar c p.1 ty
    if v.1 = 0 then ([], v.2)
    else
      match phiIncoming p c.curBb with
      | none => ([], v.2)
      | some inval => d.storeIncoming bbs v.2 v.1 ty inval

def storePhis (c : DispatchCtx) : List (Nat × XlateInst) → List Insn × DispatchCtx
  | [] => ([], c)
  | p :: ps =>
    let r := d.storePhi bbs c p
    let rs := storePhis r.2 ps
    (r.1 ++ rs.1, rs.2)

/-- `dispatch_store_phi_incomings`. -/
def dispatchStorePhiIncomings (c : DispatchCtx) (succ : Nat) : List Insn × DispatchCtx :=
  match bbs[succ]? with
  | none => ([], c)
  | some b => d.storePhis bbs c b.phis

/-- The edge to `succ`, unless it is the edge that was stored first. -/
def storeOther (c : DispatchCtx) (first succ : Nat) : List Insn × DispatchCtx :=
  if succ ≠ first then d.dispatchStorePhiIncomings bbs c succ else ([], c)

def opSelect (ty id cond x y : Nat) : Insn := ⟨.other 169, [ty, id, cond, x, y]⟩
def opIEqual (ty id x y : Nat) : Insn := ⟨.other 170, [ty, id, x, y]⟩
def opBranch (label : Nat) : Insn := ⟨.other 249, [label]⟩

/-- `next` by the cases one after the other, the later before the earlier. -/
def lowerCases (defbb cond : Nat) : List (Nat × Nat) → DispatchCtx → Nat → Emitted Nat
  | [], c, next => ⟨next, [], c⟩
  | k :: ks, c, next =>
    let s := d.storeOther bbs c defbb k.2
    let r := d.resolve bbs s.2 k.1
    if r.val = 0 then
      let rest := lowerCases defbb cond ks r.ctx next
      ⟨rest.val, s.1 ++ r.code ++ rest.code, rest.ctx⟩
    else
      let eq := r.ctx.nextId
      let sel := r.ctx.nextId+1
      let rest := lowerCases defbb cond ks r.ctx.fresh.fresh sel
      ⟨rest.val, s.1 ++ r.code ++ [opIEqual d.boolId eq cond r.val,
        opSelect d.uintId sel eq (d.const k.2) next] ++ rest.code, rest.ctx⟩

/-- `dispatch_lower_terminator`; `next` is the number at the terminator. -/
def dispatchLowerTerminator (c : DispatchCtx) (p : Nat × XlateInst) (blockvar jumpLabel : Nat) :
    List Insn × DispatchCtx :=
  match p.2.code with
  | .ret =>
    let rs := resolveAll (d.resolve bbs) c ((d.operands p.2).map (resolveRelative · p.1))
    let e := d.emit p rs.ctx.nextId rs.val
    (rs.code ++ e.code, rs.ctx.take e.width p.1 0)
  | .unreachable => ([⟨.other 255, []⟩], c)
  | .br =>
    if p.2.ops.length = 1 then
      let t := opAt p.2 0
      let s := d.dispatchStorePhiIncomings bbs c t
      (s.1 ++ [opStore blockvar (d.const t), opBranch jumpLabel], s.2)
    else if 3 ≤ p.2.ops.length then
      let t := opAt p.2 0
      let f := opAt p.2 1
      let s := d.dispatchStorePhiIncomings bbs c t
      let s' := d.storeOther bbs s.2 t f
      let cond := resolveRelative (opAt p.2 2) p.1
      -- resolved once more before, for a trace
      let r₀ := d.resolve bbs s'.2 cond
      let r := d.resolveOrUndef bbs r₀.ctx cond d.boolId
      (s.1 ++ s'.1 ++ r₀.code ++ r.code ++
        [opSelect d.uintId r.ctx.nextId r.val (d.const t) (d.const f),
          opStore blockvar r.ctx.nextId, opBranch jumpLabel], r.ctx.fresh)
    else ([opBranch jumpLabel], c)
  | .switch =>
    if p.2.ops.length < 3 then ([opBranch jumpLabel], c)
    else
      let defbb := opAt p.2 2
      let s := d.dispatchStorePhiIncomings bbs c defbb
      let r := d.resolveOrUndef bbs s.2 (resolveRelative (opAt p.2 1) p.1)
        (d.airTypeId (opAt p.2 0))
      let n := d.lowerCases bbs defbb r.val (switchCases p.2) r.ctx (d.const defbb)
      (s.1 ++ r.code ++ n.code ++ [opStore blockvar n.val, opBranch jumpLabel], n.ctx)
  | _ => ([opBranch jumpLabel], c)

/-- The opcodes `dispatch_emit_block` hands to an emitter. -/
def handled : AirInstCode → Bool
  | .alloca | .cast | .call | .gep | .gepOld | .store | .storeOld | .load | .shufflevec
  | .insertval | .binop | .unop | .cmp | .cmp2 | .select | .vselect | .extractval | .extractelt
  | .insertelt => true
  | _ => false

/-- One instruction of a block, but for the spill of its result. -/
def emitInst (c : DispatchCtx) (p : Nat × XlateInst) : List Insn × DispatchCtx :=
  if p.2.code = .phi then
    if p.2.ops.length < 1 then ([], c)
    else
      let ty := d.airTypeId (opAt p.2 0)
      let v := d.dispatchPhiVar c p.1 ty
      if v.1 = 0 then ([], v.2)
      else ([opLoad ty v.2.nextId v.1], v.2.take 1 p.1 v.2.nextId)
  else if handled p.2.code then
    let rs := resolveAll (d.resolve bbs) c ((d.operands p.2).map (resolveRelative · p.1))
    let e := d.emit p rs.ctx.nextId rs.val
    (rs.code ++ e.code, rs.ctx.take e.width p.1 (if d.produces p then e.val else 0))
  else ([], c)

/-- One instruction and the spill of its result; block 0 needs no spills. -/
def emitSpilled (c : DispatchCtx) (p : Nat × XlateInst) : List Insn × DispatchCtx :=
  let r := d.emitInst bbs c p
  if d.produces p ∧ c.curBb ≠ 0 then
    let s := d.dispatchSpillResult r.2 p.1
    (r.1 ++ s.1, s.2)
  else r

/-- `dispatch_emit_block`. -/
def dispatchEmitBlock (c : DispatchCtx) : List (Nat × XlateInst) → List Insn × DispatchCtx
  | [] => ([], c)
  | p :: ps =>
    let r := d.emitSpilled bbs c p
    let rest := dispatchEmitBlock r.2 ps
    (r.1 ++ rest.1, rest.2)

/-- `dispatch_precreate_spills`, over the value ids of the body. -/
def dispatchPrecreateSpills (c : DispatchCtx) : List Nat → DispatchCtx
  | [] => c
  | v :: vs =>
    if (d.defBb bbs v).getD 0 = 0 ∨ d.preType v = 0 then dispatchPrecreateSpills c vs
    else dispatchPrecreateSpills (c.spillAt v (d.preType v) (d.ptrId (d.preType v))) vs

/- The labels, in the order they are allocated from `l` on. -/
structure Labels where
  base : Nat

def Labels.header (l : Labels) : Nat := l.base
def Labels.body (l : Labels) : Nat := l.base+1
def Labels.selmerge (l : Labels) : Nat := l.base+2
def Labels.cont (l : Labels) : Nat := l.base+3
def Labels.exit (l : Labels) : Nat := l.base+4
/-- The label of block `k`, from 1 on. -/
def Labels.bb (l : Labels) (k : Nat) : Nat := l.base+4+k

def dispatchMaxIters : Nat := 65536

/-- `cur`, `it`, `itp` and `inbound` are the four ids from `id` on. -/
def headerBlock (l : Labels) (id blockvar itervar : Nat) : Block where
  label := l.header
  insns := [opLoad d.uintId id blockvar, opLoad d.uintId (id+1) itervar,
    ⟨.other 128, [d.uintId, id+2, id+1, d.const 1]⟩, opStore itervar (id+2),
    ⟨.other 176, [d.boolId, id+3, id+2, d.const dispatchMaxIters]⟩,
    ⟨.other 246, [l.exit, l.cont, 0]⟩, ⟨.other 250, [id+3, l.body, l.exit]⟩]

def bodyBlock (l : Labels) (cur nbb : Nat) : Block where
  label := l.body
  insns := [⟨.other 247, [l.selmerge, 0]⟩,
    ⟨.other 251, cur :: l.selmerge :: (List.range (nbb-1)).flatMap fun k => [k+1, l.bb (k+1)]⟩]

/-- A block, but for its label. -/
def blockCode (c : DispatchCtx) (b : AirBb) (blockvar jump : Nat) : List Insn × DispatchCtx :=
  let e := d.dispatchEmitBlock bbs c b.body
  let t := d.dispatchLowerTerminator bbs e.2 b.term blockvar jump
  (e.1 ++ t.1, t.2)

/-- The cases from block `k` on. -/
def caseBlocks (l : Labels) (blockvar : Nat) :
    Nat → List AirBb → DispatchCtx → List Block × DispatchCtx
  | _, [], c => ([], c)
  | k, b :: rest, c =>
    let t := d.blockCode bbs (c.enter k) b blockvar l.selmerge
    let r := caseBlocks l blockvar (k+1) rest t.2
    (⟨l.bb k, t.1⟩ :: r.1, r.2)

/-- The way out at the cap. -/
def bail : List Insn :=
  match d.helperRet with
  | some u => [⟨.returnValue, [u]⟩]
  | none => [⟨.ret, []⟩]

def lastBlocks (l : Labels) : List Block :=
  [⟨l.selmerge, [opBranch l.cont]⟩, ⟨l.cont, [opBranch l.header]⟩, ⟨l.exit, d.bail⟩]

/-- What the locals splice puts at the start of the entry block. -/
def localVars (c : DispatchCtx) : List Insn := c.locals.map fun p => ⟨.var, [p.1, p.2, 7]⟩

/- The state after the two variables of the loop and the labels. -/
structure Prologue where
  blockvar : Nat
  itervar : Nat
  labels : Labels
  ctx : DispatchCtx

def prologue (c : DispatchCtx) : Prologue :=
  let vs := (List.range (d.ctx.valueIdCapacity-d.ctx.layout.instIdBase)).map
    (d.ctx.layout.instIdBase+·)
  let c := d.dispatchPrecreateSpills bbs { c with curBb := 0 } vs
  let c₁ := c.localVar (d.ptrId d.uintId)
  let c₂ := c₁.localVar (d.ptrId d.uintId)
  ⟨c.nextId, c₁.nextId, ⟨c₂.nextId⟩, { c₂ with nextId := c₂.nextId+(4+bbs.length) }⟩

/-- The blocks of the function, `entry` the label of the one that is open. -/
def dispatchBlocks (entry : Nat) (c : DispatchCtx) : List Block × DispatchCtx :=
  match bbs with
  | [] => ([], c)
  | b₀ :: rest =>
    let s := d.prologue bbs c
    let t := d.blockCode bbs s.ctx b₀ s.blockvar s.labels.header
    let h := t.2.nextId
    let r := d.caseBlocks bbs s.labels s.blockvar 1 rest { t.2 with nextId := h+4 }
    (⟨entry, localVars r.2 ++ opStore s.itervar (d.const 0) :: t.1⟩ ::
      d.headerBlock s.labels h s.blockvar s.itervar ::
      bodyBlock s.labels h bbs.length :: (r.1 ++ d.lastBlocks s.labels), r.2)

/-- `translate_body_dispatch`; `none` leaves the body to the linear path. -/
def translateBodyDispatch (entry : Nat) (c : DispatchCtx) : Option (List Block × DispatchCtx) :=
  match d.partition with
  | none => none
  | some bbs => some (d.dispatchBlocks bbs entry c)

end Dispatch

end Lagfx.Spirv
