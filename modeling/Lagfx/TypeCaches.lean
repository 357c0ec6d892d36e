import Lagfx.ValueNumbering

/-! The types that `translate_function.c` declares: the caches of a context, the functions
that fill them, and how contexts hand them on. -/
namespace Lagfx

/-- The declarations that a module may hold once: the opcode, and the operands after the
result id. -/
inductive TypeShape where
  | void
  | bool
  | int (width sign : Nat)
  | float (width : Nat)
  | vector (elem lanes : Nat)
  | image (sampled : Nat) (rest : List Nat)
  | sampler
  | sampledImage (image : Nat)
  | function (ret : Nat) (params : List Nat)
deriving DecidableEq, Repr

structure TypeDecl where
  id : Nat
  shape : TypeShape
deriving DecidableEq, Repr

/-- The fields of a context that hold the id of one type, 0 before it is declared. -/
inductive CacheSlot where
  | void | uchar | uint | int32 | int64 | ulong | char | ushort | short | float32 | half
  | bool | vec2F | vec3F | vec4F | fnVoid | imageT | samplerT | sampimgT
deriving DecidableEq, Repr

structure VecEntry where
  elem : Nat
  lanes : Nat
  id : Nat
deriving DecidableEq, Repr

structure PtrEntry where
  pointeeAirType : Nat
  storageClass : Nat
  spvId : Nat
deriving DecidableEq, Repr

/-- The type caches of an `xlate_ctx_t`, and whether it is that of a helper. -/
structure XlateTypes where
  ids : CacheSlot → Nat := fun _ => 0
  vecCache : List VecEntry := []
  ptrCache : List PtrEntry := []
  isHelper : Bool := false

/-- `copy_module_state`: every cache, but not the role. -/
def copyModuleState (dst src : XlateTypes) : XlateTypes :=
  { dst with ids := src.ids, vecCache := src.vecCache, ptrCache := src.ptrCache }

/-- A helper that has its function type; `retSpv` is 0 for void. -/
structure HelperFn where
  fntyId : Nat
  retSpv : Nat
  params : List Nat
deriving DecidableEq, Repr

/-- The builder's next id and declarations, the context at work, that of the entry while a
helper is translated, and what all contexts share: the ids of the AIR types, the helpers. -/
structure TypeEmitter where
  nextId : Nat := 1
  decls : List TypeDecl := []
  ctx : XlateTypes := {}
  entry : Option XlateTypes := none
  spvTypeIds : Nat → Nat := fun _ => 0
  fns : List HelperFn := []

namespace TypeEmitter

def setId (s : TypeEmitter) (k : CacheSlot) (id : Nat) : TypeEmitter :=
  { s with ctx := { s.ctx with ids := Function.update s.ctx.ids k id } }

def alloc (s : TypeEmitter) : TypeEmitter := { s with nextId := s.nextId+1 }

def emit (s : TypeEmitter) (id : Nat) (shape : TypeShape) : TypeEmitter :=
  { s with decls := s.decls ++ [⟨id, shape⟩] }

/-- The next id, declared as a type. -/
def declare (s : TypeEmitter) (shape : TypeShape) : Nat × TypeEmitter :=
  (s.nextId, s.alloc.emit s.nextId shape)

/-- A type with a field of its own: declared once. -/
def cachedType (s : TypeEmitter) (k : CacheSlot) (shape : TypeShape) : Nat × TypeEmitter :=
  if s.ctx.ids k ≠ 0 then (s.ctx.ids k, s)
  else
    let r := s.declare shape
    (r.1, r.2.setId k r.1)

def emitTypeFloat32 (s : TypeEmitter) : Nat × TypeEmitter := s.cachedType .float32 (.float 32)

def emitTypeHalf (s : TypeEmitter) : Nat × TypeEmitter := s.cachedType .half (.float 16)

def emitTypeBool (s : TypeEmitter) : Nat × TypeEmitter := s.cachedType .bool .bool

def emitTypeVoid (s : TypeEmitter) : Nat × TypeEmitter := s.cachedType .void .void

def emitTypeSampler (s : TypeEmitter) : Nat × TypeEmitter := s.cachedType .samplerT .sampler

end TypeEmitter

/-- The field of an integer type, for the widths that have one. -/
def intSlot (width sign : Nat) : Option CacheSlot :=
  match width, sign with
  | 8, 0 => some .uchar
  | 8, 1 => some .char
  | 16, 0 => some .ushort
  | 16, 1 => some .short
  | 32, 0 => some .uint
  | 32, 1 => some .int32
  | 64, 1 => some .int64
  | 64, 0 => some .ulong
  | _, _ => none

def maxVecCache : Nat := 32
def maxPtrCache : Nat := 64

namespace TypeEmitter

/-- `emit_type_int_w`: a width of 1 is bool. -/
def emitTypeIntW (s : TypeEmitter) (width sign : Nat) : Nat × TypeEmitter :=
  if width = 1 then s.emitTypeBool
  else match intSlot width sign with
    | some k => s.cachedType k (.int width sign)
    | none => s.declare (.int width sign)

def findVec (s : TypeEmitter) (elem lanes : Nat) : Option VecEntry :=
  s.ctx.vecCache.find? fun e => decide (e.elem = elem ∧ e.lanes = lanes)

/-- `emit_type_vec`: a full cache takes no more shapes. -/
def emitTypeVec (s : TypeEmitter) (elem lanes : Nat) : Nat × TypeEmitter :=
  match s.findVec elem lanes with
  | some e => (e.id, s)
  | none =>
    let r := s.declare (.vector elem lanes)
    (r.1, if r.2.ctx.vecCache.length < maxVecCache then
      { r.2 with ctx := { r.2.ctx with vecCache := r.2.ctx.vecCache ++ [⟨elem, lanes, r.1⟩] } }
      else r.2)

/-- A float vector with a field of its own. -/
def emitTypeVecF (s : TypeEmitter) (k : CacheSlot) (lanes : Nat) : Nat × TypeEmitter :=
  if s.ctx.ids k ≠ 0 then (s.ctx.ids k, s)
  else
    let f := s.emitTypeFloat32
    let v := f.2.emitTypeVec f.1 lanes
    (v.1, v.2.setId k v.1)

def emitTypeVec4F (s : TypeEmitter) : Nat × TypeEmitter := s.emitTypeVecF .vec4F 4
def emitTypeVec2F (s : TypeEmitter) : Nat × TypeEmitter := s.emitTypeVecF .vec2F 2
def emitTypeVec3F (s : TypeEmitter) : Nat × TypeEmitter := s.emitTypeVecF .vec3F 3

/-- `emit_type_function_void`: its own id comes before that of void. -/
def emitTypeFunctionVoid (s : TypeEmitter) : Nat × TypeEmitter :=
  if s.ctx.ids .fnVoid ≠ 0 then (s.ctx.ids .fnVoid, s)
  else
    let v := (s.alloc.setId .fnVoid s.nextId).emitTypeVoid
    (s.nextId, v.2.emit s.nextId (.function v.1 []))

/-- `emit_type_image2d_f`: Dim 2D, Depth, Arrayed and MS 0, Sampled 1, no format. -/
def emitTypeImage2dF (s : TypeEmitter) : Nat × TypeEmitter :=
  if s.ctx.ids .imageT ≠ 0 then (s.ctx.ids .imageT, s)
  else
    let f := s.alloc.emitTypeFloat32
    (s.nextId, (f.2.emit s.nextId (.image f.1 [1, 0, 0, 0, 1, 0])).setId .imageT s.nextId)

def emitTypeSampledImage (s : TypeEmitter) : Nat × TypeEmitter :=
  if s.ctx.ids .sampimgT ≠ 0 then (s.ctx.ids .sampimgT, s)
  else
    let i := s.alloc.emitTypeImage2dF
    (s.nextId, (i.2.emit s.nextId (.sampledImage i.1)).setId .sampimgT s.nextId)

/-- `emit_type_pointer`: pointers may repeat, so only their ids count here. -/
def emitTypePointer (s : TypeEmitter) (pointeeAirType storageClass : Nat) :
    Nat × TypeEmitter :=
  match s.ctx.ptrCache.find? fun e =>
      decide (e.pointeeAirType = pointeeAirType ∧ e.storageClass = storageClass) with
  | some e => (e.spvId, s)
  | none =>
    let s' := s.alloc
    (s.nextId, if s'.ctx.ptrCache.length < maxPtrCache then
      { s' with ctx := { s'.ctx with
        ptrCache := s'.ctx.ptrCache ++ [⟨pointeeAirType, storageClass, s.nextId⟩] } }
      else s')

/-- The case VECTOR of `emit_air_type`, once the type of the elements has its id. -/
def airVector (s : TypeEmitter) (elem lanes : Nat) : Nat × TypeEmitter :=
  let isFloat := decide (elem = s.ctx.ids .float32)
  if lanes = 2 ∧ isFloat = true ∧ s.ctx.ids .vec2F ≠ 0 then (s.ctx.ids .vec2F, s)
  else if lanes = 3 ∧ isFloat = true ∧ s.ctx.ids .vec3F ≠ 0 then (s.ctx.ids .vec3F, s)
  else if lanes = 4 ∧ isFloat = true ∧ s.ctx.ids .vec4F ≠ 0 then (s.ctx.ids .vec4F, s)
  else
    let v := s.emitTypeVec elem lanes
    (v.1,
      if isFloat = false then v.2
      else if lanes = 2 then v.2.setId .vec2F v.1
      else if lanes = 3 then v.2.setId .vec3F v.1
      else if lanes = 4 then v.2.setId .vec4F v.1
      else v.2)

def memo (s : TypeEmitter) (idx id : Nat) : TypeEmitter :=
  { s with spvTypeIds := Function.update s.spvTypeIds idx id }

end TypeEmitter

def airTypeBool : Nat := 2^32-2
def storageFunction : Nat := 7
def maxStructFields : Nat := 16

/-- `emit_air_type` to a depth of `fuel`: `none` is a type that refers to itself. -/
def emitAirType (types : List XlateType) :
    Nat → Nat → TypeEmitter → Option (Nat × TypeEmitter)
  | 0, _, _ => none
  | fuel+1, idx, s =>
    if idx = airTypeBool then some s.emitTypeBool
    else match types[idx]? with
      | none => some (s.emitTypeIntW 32 0)
      | some t =>
        if s.spvTypeIds idx ≠ 0 then some (s.spvTypeIds idx, s)
        else
          let out : Option (Nat × TypeEmitter) := match t.kind with
            | .void => some s.emitTypeVoid
            | .float => some s.emitTypeFloat32
            | .half => some s.emitTypeHalf
            | .integer => some (s.emitTypeIntW (t.op.getD 0 32) 0)
            | .vector =>
              (emitAirType types fuel (t.op.getD 1 0) s).map fun e =>
                e.2.airVector e.1 (t.op.getD 0 4)
            | .pointer =>
              (emitAirType types fuel (t.op.getD 0 0) s).map fun e =>
                e.2.emitTypePointer (t.op.getD 0 0) storageFunction
            | .array =>
              -- the length is a constant of the type uint
              (emitAirType types fuel (t.op.getD 1 0) s).map fun e =>
                let u := (e.2.emitTypeIntW 32 0).2.alloc
                (u.nextId, u.alloc)
            | .structAnon | .structNamed =>
              (((t.op.drop 1).take maxStructFields).foldlM
                (fun s field => (emitAirType types fuel field s).map Prod.snd) s).map fun s =>
                  (s.nextId, s.alloc)
            | _ => some (s.emitTypeIntW 32 0)
          out.map fun r => (r.1, r.2.memo idx r.1)

namespace TypeEmitter

/-- The type that a helper returns; 0 stands for void. -/
def retType (s : TypeEmitter) (retSpv : Nat) : Nat × TypeEmitter :=
  if retSpv ≠ 0 then (retSpv, s) else s.emitTypeVoid

/-- `helpers_register` from the OpTypeFunction on, when the types of its result and its
parameters are known: an earlier helper's function type is taken again. -/
def helpersRegister (s : TypeEmitter) (retSpv : Nat) (params : List Nat) : TypeEmitter :=
  let v := s.retType retSpv
  let same (o : HelperFn) : Bool :=
    decide ((if o.retSpv ≠ 0 then o.retSpv else v.2.ctx.ids .void) = v.1 ∧ o.params = params)
  let t : Nat × TypeEmitter := match v.2.fns.find? same with
    | some o => (o.fntyId, v.2)
    | none => v.2.declare (.function v.1 params)
  { t.2.alloc with fns := t.2.fns ++ [⟨t.1, retSpv, params⟩] }

/-- `translate_one_helper` begins: the helper's context is filled from the entry's. -/
def enterHelper (s : TypeEmitter) : TypeEmitter :=
  match s.entry with
  | some _ => s
  | none => { s with ctx := copyModuleState { isHelper := true } s.ctx, entry := some s.ctx }

/-- `translate_one_helper` ends, also when the body failed. -/
def leaveHelper (s : TypeEmitter) : TypeEmitter :=
  match s.entry with
  | some c => { s with ctx := copyModuleState c s.ctx, entry := none }
  | none => s

end TypeEmitter

/-- What the translator does to its types. -/
inductive TypeOp where
  | float32 | half | bool | void | sampler
  | int (width sign : Nat)
  | vec (elem lanes : Nat)
  | vec2F | vec3F | vec4F
  | functionVoid | image2dF | sampledImage
  | pointer (pointeeAirType storageClass : Nat)
  | airVector (elem lanes : Nat)
  | alloc
  | memo (idx id : Nat)
  | register (retSpv : Nat) (params : List Nat)
  | enterHelper | leaveHelper
deriving DecidableEq, Repr

def TypeEmitter.step (s : TypeEmitter) : TypeOp → TypeEmitter
  | .float32 => s.emitTypeFloat32.2
  | .half => s.emitTypeHalf.2
  | .bool => s.emitTypeBool.2
  | .void => s.emitTypeVoid.2
  | .sampler => s.emitTypeSampler.2
  | .int width sign => (s.emitTypeIntW width sign).2
  | .vec elem lanes => (s.emitTypeVec elem lanes).2
  | .vec2F => s.emitTypeVec2F.2
  | .vec3F => s.emitTypeVec3F.2
  | .vec4F => s.emitTypeVec4F.2
  | .functionVoid => s.emitTypeFunctionVoid.2
  | .image2dF => s.emitTypeImage2dF.2
  | .sampledImage => s.emitTypeSampledImage.2
  | .pointer p c => (s.emitTypePointer p c).2
  | .airVector elem lanes => (s.airVector elem lanes).2
  | .alloc => s.alloc
  | .memo idx id => s.memo idx id
  | .register retSpv params => s.helpersRegister retSpv params
  | .enterHelper => s.enterHelper
  | .leaveHelper => s.leaveHelper

/-- No two declarations with the same operands. -/
def TypeEmitter.Unique (s : TypeEmitter) : Prop := (s.decls.map TypeDecl.shape).Nodup

end Lagfx
