import Lagfx.BitcodeReader

/-! `lagfx_air_function_body_open`: a FUNCTION_BLOCK is read again, from the bits that the
reader kept of it. -/
namespace Lagfx
open ByteMemory Bits

def sizeofAirInst : Nat := 24
def maxInsts : Nat := 4096
def maxLocalConsts : Nat := 256

inductive AirInstCode where
  | unknown | declareblocks | binop | cast | gepOld | select | extractelt | insertelt
  | shufflevec | cmp | ret | br | switch | unreachable | phi | alloca | load | storeOld
  | extractval | insertval | cmp2 | vselect | indirectbr | debugLocAgain | call | debugLoc
  | fence | gep | store | cmpxchg | unop
deriving DecidableEq, Repr

def classifyInst (raw : Nat) : AirInstCode :=
  match raw with
  | 1 => .declareblocks
  | 2 => .binop
  | 3 => .cast
  | 4 => .gepOld
  | 5 => .select
  | 6 => .extractelt
  | 7 => .insertelt
  | 8 => .shufflevec
  | 9 => .cmp
  | 10 => .ret
  | 11 => .br
  | 12 => .switch
  | 15 => .unreachable
  | 16 => .phi
  | 19 => .alloca
  | 20 => .load
  | 24 => .storeOld
  | 26 => .extractval
  | 27 => .insertval
  | 28 => .cmp2
  | 29 => .vselect
  | 31 => .indirectbr
  | 33 => .debugLocAgain
  | 34 => .call
  | 35 => .debugLoc
  | 36 => .fence
  | 43 => .gep
  | 44 => .store
  | 46 => .cmpxchg
  | 56 => .unop
  | _ => .unknown

/- `ops` is set from `opsOff` again when the body is complete. -/
structure AirInst where
  code : AirInstCode
  rawCode : Nat
  ops : Option Ptr
  numOps : Nat
  opsOff : Nat
deriving DecidableEq, Repr

/-- A function body; `stale` as in a module. -/
structure AirBody where
  arena : Arena
  instsOff : Nat
  instsPtr : Ptr
  insts : List AirInst := []
  numBlocks : Nat := 0
  localConstantsOff : Nat := 0
  localConstants : List AirConstant := []
  stale : Bool := false

def AirBody.store (b : AirBody) (p : Ptr) : AirBody :=
  { b with stale := b.stale || decide (p.generation ≠ b.arena.generation) }

def AirBody.put (b : AirBody) (off : Nat) (c : Cell) : AirBody :=
  { b with arena := b.arena.put off c }

def AirBody.reserve (env : ReaderEnv) (b : AirBody) (n : Nat) : Nat × AirBody :=
  let r := arenaReserve env b.arena n
  (r.1, { b with arena := r.2 })

/-- The pointer to the instructions again, after a reservation. -/
def AirBody.refresh (b : AirBody) : AirBody :=
  { b with instsPtr := b.arena.ptr b.instsOff }

def AirBody.internU32Array (env : ReaderEnv) (b : AirBody) (ops : List Nat) : Nat × AirBody :=
  let s := b.reserve env (4*ops.length)
  (s.1, if s.1 = 0 then s.2 else s.2.put s.1 (.words (ops.map u32)))

/-- The words of an instruction's operands, from where its record was kept. -/
def AirBody.opsOf (b : AirBody) (inst : AirInst) : List Nat :=
  if inst.opsOff = 0 then [] else
  match b.arena.cells inst.opsOff with
  | some (.words ws) => ws
  | _ => []

/-- `lagfx_air_function_body_local_constants`: found from the offset, at the base as it is. -/
def AirBody.localConstantsPtr (b : AirBody) : Option Ptr :=
  if b.localConstants = [] then none else some (b.arena.ptr b.localConstantsOff)

/- A local CONSTANTS_BLOCK has no strings, and fewer places. -/
def localConstantsRecord (env : ReaderEnv) (b : AirBody) (w : ConstantsWalk) (r : BsRecord) :
    Option (AirBody × ConstantsWalk) :=
  if maxLocalConsts ≤ w.entries.length then none
  else if r.code = 1 then
    match r.ops with
    | [] => some (b, w)
    | op::_ => some (b, { w with currentType := u32 op })
  else
    let b := b.store w.ptr
    let payload (kind : AirConstKind) : AirBody × ConstantsWalk :=
      let s := b.internU32Array env r.ops
      let b := s.2.refresh
      let ptr := b.arena.ptr w.off
      (b.store ptr, { w.push kind (.bytes s.1 (4*r.ops.length)) with ptr := ptr })
    some <| match r.code with
    | 2 => (b, w.push .null (inlinePayload .null r))
    | 3 => (b, w.push .undef (inlinePayload .undef r))
    | 4 => (b, w.push .integer (inlinePayload .integer r))
    | 6 => (b, w.push .float (inlinePayload .float r))
    | 22 => payload .data
    | 7 => payload .aggregate
    | _ => (b, w.push .unknown (inlinePayload .unknown r))

/-- The next instruction, with its operands at `off`. -/
def AirBody.pushInst (b : AirBody) (r : BsRecord) (off : Nat) : AirBody :=
  let b := b.store b.instsPtr
  { b with
    insts := b.insts ++ [⟨classifyInst r.code, r.code, ptrUnlessZero b.arena off, r.ops.length, off⟩]
    numBlocks := match classifyInst r.code, r.ops with
      | .declareblocks, op::_ => u32 op
      | _, _ => b.numBlocks }

/-- An instruction record: its operands are copied to the arena. `none` is no memory. -/
def instRecord (env : ReaderEnv) (b : AirBody) (r : BsRecord) : Option AirBody :=
  if r.ops = [] then some (b.pushInst r 0)
  else
    let s := b.reserve env (8*r.ops.length)
    if s.1 = 0 then none else some ((s.2.refresh.put s.1 (.words r.ops)).pushInst r s.1)

/-- A loop head: of the loop over a local CONSTANTS_BLOCK if there is one, else of the
loop over the body. -/
structure BodyReader where
  b : AirBody
  pos : Nat
  blk : BsBlock
  constants : Option (BsBlock × ConstantsWalk)

inductive BodyEnd where
  | finished (b : AirBody)
  | outOfMemory

def localConstantsStep (env : ReaderEnv) (buf : List UInt8) (s : BodyReader) (cb : BsBlock)
    (w : ConstantsWalk) : BodyReader ⊕ BodyEnd :=
  let leave (pos : Nat) : BodyReader ⊕ BodyEnd :=
    .inl ⟨{ s.b with localConstantsOff := w.off, localConstants := w.entries },
      seekCursor buf cb.endPos pos, s.blk, none⟩
  if cb.endPos ≤ s.pos then leave s.pos
  else match blockNextRecord buf cb s.pos with
    | none => leave (nextRecordStop buf cb s.pos)
    | some (.stop, _, pos) => leave pos
    | some (.subblock _, cb, pos) =>
      .inl ⟨s.b, skipCursor buf cb.abbrevWidth pos, s.blk, some (cb, w)⟩
    | some (.define, cb, pos) => .inl ⟨s.b, pos, s.blk, some (cb, w)⟩
    | some (.record r, cb, pos) =>
      match localConstantsRecord env s.b w r with
      | none => leave pos
      | some (b, w) => .inl ⟨b, pos, s.blk, some (cb, w)⟩

/-- A sub-block of the body: only CONSTANTS is read. -/
def bodySubblock (env : ReaderEnv) (info : Blockinfo) (buf : List UInt8) (b : AirBody)
    (blk : BsBlock) (id pos : Nat) : BodyReader ⊕ BodyEnd :=
  if id = 11 then
    match blockEnter buf blk.abbrevWidth (some info) pos with
    | none => .inr (.finished b)
    | some (cb, first) =>
      let s := b.reserve env (sizeofAirConstant*maxLocalConsts)
      if s.1 = 0 then .inr .outOfMemory
      else
        let b := s.2.refresh
        .inl ⟨b, first, blk, some (cb, ⟨s.1, b.arena.ptr s.1, [], 0⟩)⟩
  else
    match blockSkip buf blk.abbrevWidth pos with
    | none => .inr (.finished b)
    | some stop => .inl ⟨b, stop, blk, none⟩

def bodyStep (env : ReaderEnv) (info : Blockinfo) (buf : List UInt8) (s : BodyReader) :
    BodyReader ⊕ BodyEnd :=
  match s.constants with
  | some (cb, w) => localConstantsStep env buf s cb w
  | none =>
    if s.blk.endPos ≤ s.pos then .inr (.finished s.b)
    else match blockNextRecord buf s.blk s.pos with
      | none => .inr (.finished s.b)
      | some (.stop, _, _) => .inr (.finished s.b)
      | some (.subblock id, blk, pos) => bodySubblock env info buf s.b blk id pos
      | some (.define, blk, pos) => .inl ⟨s.b, pos, blk, none⟩
      | some (.record r, blk, pos) =>
        if maxInsts ≤ s.b.insts.length then .inr (.finished s.b)
        else match instRecord env s.b r with
          | none => .inr .outOfMemory
          | some b => .inl ⟨b, pos, blk, none⟩

/-- The operand pointers again, now that the arena does not move any more. -/
def finishBody (b : AirBody) : AirBody :=
  let b := b.store b.instsPtr
  { b with insts := b.insts.map fun i => { i with ops := ptrUnlessZero b.arena i.opsOff } }

/-- The copy of the bitstream that a module keeps. -/
def AirModule.bitstream (m : AirModule) : List UInt8 :=
  match m.arena.cells m.bitstreamOffset with
  | some (.bytes bs) => bs
  | _ => []

/-- The width of the codes in the block around a FUNCTION_BLOCK, as it is taken to be. -/
def parentAbbrevWidth : Nat := 3

/-- The body before the loop over its records. -/
def startBody (env : ReaderEnv) (m : AirModule) (fn : AirFunction) :
    Except OpenStatus BodyReader :=
  if env.grants 0 = false ∨ env.grants 1 = false then .error .outOfMemory
  else match bsSeek m.bitstream fn.bodyOffset with
    | none => .error .protocol
    | some pos =>
      match blockEnter m.bitstream parentAbbrevWidth (some m.blockinfo) pos with
      | none => .error .protocol
      | some (blk, first) =>
        if blk.blockId ≠ 12 then .error .protocol
        else
          let r := arenaReserve env (Arena.init (4*1024) 2) (sizeofAirInst*maxInsts)
          if r.1 = 0 then .error .outOfMemory
          else .ok ⟨{ arena := r.2, instsOff := r.1, instsPtr := r.2.ptr r.1 }, first, blk, none⟩

/-- `lagfx_air_function_body_open` with at most `fuel` iterations; `modEnv` is what the
module was read with. -/
def airFunctionBodyOpen (modEnv env : ReaderEnv) (fuel : Nat) (m : AirModule) (fnIdx : Nat) :
    Option (Except OpenStatus AirBody) :=
  if m.numFunctions ≤ fnIdx then some (.error .invalidArg)
  else
    let fn := m.loadFunction modEnv fnIdx
    if fn.isProto = true ∨ fn.bodyOffset = 0 ∨ fn.bodyLength = 0 then some (.error .invalidArg)
    else match startBody env m fn with
      | .error st => some (.error st)
      | .ok s =>
        match Machine.run (bodyStep env m.blockinfo m.bitstream) fuel s with
        | .inl _ => none
        | .inr .outOfMemory => some (.error .outOfMemory)
        | .inr (.finished b) => some (.ok (finishBody b))

def OpensBody (modEnv env : ReaderEnv) (m : AirModule) (fnIdx : Nat)
    (r : Except OpenStatus AirBody) : Prop :=
  ∃ fuel, airFunctionBodyOpen modEnv env fuel m fnIdx = some r

end Lagfx
