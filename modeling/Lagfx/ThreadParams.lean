import Lagfx.TypeCaches
import Lagfx.ResourceBinding
import Lagfx.Lib.Places

/-! Thread parameters of the helper functions: how `emit_helper_fncall` hands the caller's
local variables to a helper. What resolving an operand emits in a dispatch case is left out. -/
namespace Lagfx
open Places

/-- How a value got its binding. -/
inductive ValueDef where
  | alloca (id : Nat)
  | gep (base : Nat) (idx : List Nat) (id resultPtr : Nat)
  | cast (base undef : Nat)
  | param (id spvTy : Nat)
  | value (id spvTy : Nat)
deriving DecidableEq, Repr

/-- `value_id_to_spv` and `value_spv_type`; 0 is no entry. -/
structure ValueTables where
  spv : Nat → Nat := fun _ => 0
  spvType : Nat → Nat := fun _ => 0

namespace ValueTables

def bindValueSpv (t : ValueTables) (vid id : Nat) : ValueTables :=
  { t with spv := Function.update t.spv vid id }

def setValueSpvType (t : ValueTables) (vid ty : Nat) : ValueTables :=
  { t with spvType := Function.update t.spvType vid ty }

/-- `emit_alloca_vars`, `emit_inst_gep`, the aliases of `emit_inst_cast`, the parameters of
`translate_one_helper`, and any other value. -/
def define (t : ValueTables) (vid : Nat) : ValueDef → ValueTables
  | .alloca id => t.bindValueSpv vid id
  | .gep base idx id resultPtr =>
    if t.spv base = 0 then t
    else if idx = [] then
      (t.bindValueSpv vid (t.spv base)).setValueSpvType vid (t.spvType base)
    else (t.bindValueSpv vid id).setValueSpvType vid resultPtr
  | .cast base undef => t.bindValueSpv vid (if t.spv base = 0 then undef else t.spv base)
  | .param id spvTy => (t.bindValueSpv vid id).setValueSpvType vid spvTy
  | .value id spvTy => (t.bindValueSpv vid id).setValueSpvType vid spvTy

end ValueTables

/-- The tables behind the definitions of a function, the newest first. -/
def valueTables : List (Nat × ValueDef) → ValueTables
  | [] => {}
  | d :: older => (valueTables older).define d.1 d.2

/-- The definition that the GEPs without index operands lead back to. -/
def origin : List (Nat × ValueDef) → Nat → Option ValueDef
  | [], _ => none
  | (v, d) :: older, vid =>
    if vid = v then
      match d with
      | .gep base idx id resultPtr =>
        if idx = [] then origin older base else some (.gep base idx id resultPtr)
      | d => some d
    else origin older vid

/-- The type that a definition of its own records: none for a variable or a cast. -/
def ValueDef.recorded : ValueDef → Option Nat
  | .alloca _ => none
  | .gep _ _ _ resultPtr => some resultPtr
  | .cast _ _ => none
  | .param _ spvTy => some spvTy
  | .value _ spvTy => some spvTy

/- The helpers. -/

inductive HelperParamKind where
  | value | tex | samp | threadPtr | dataBuf | structBuf
deriving DecidableEq, Repr

structure HelperParam where
  kind : HelperParamKind
  spvTy : Nat
  pointeeAir : Nat := 0
  pointeeSpv : Nat := 0
deriving DecidableEq, Repr

def maxHelperParams : Nat := 8

/-- An `xlate_helper_fn_t`, as `helpers_register` leaves it. -/
structure HelperSig where
  funcId : Nat
  emitted : Bool
  retSpv : Nat
  params : List HelperParam
  params_le : params.length ≤ maxHelperParams
  typed : ∀ p ∈ params, p.spvTy ≠ 0

/-- An entry of `const_cache`; kind 0 is an undefined value. -/
structure ConstEntry where
  kind : Nat
  spvType : Nat
  lit : Nat
  id : Nat
deriving DecidableEq, Repr

def maxConstCache : Nat := 64

/-- The emitter of types, with the cache of constants beside it. -/
structure FnEmitter where
  types : TypeEmitter
  consts : List ConstEntry := []

namespace FnEmitter

def nextId (e : FnEmitter) : Nat := e.types.nextId

/-- The emitter behind an id that was handed out. -/
def alloc (e : FnEmitter) : FnEmitter := { e with types := e.types.alloc }

/-- `cache_lookup_const`, and a new id with `cache_store_const`. -/
def constant (e : FnEmitter) (kind spvType lit : Nat) : Nat × FnEmitter :=
  match e.consts.find? fun k =>
      decide (k.kind = kind ∧ k.spvType = spvType ∧ k.lit = lit) with
  | some k => (k.id, e)
  | none =>
    (e.nextId, if e.consts.length < maxConstCache then
      { e.alloc with consts := e.consts++[⟨kind, spvType, lit, e.nextId⟩] } else e.alloc)

def uintType (e : FnEmitter) : Nat × FnEmitter :=
  ((e.types.emitTypeIntW 32 0).1, { e with types := (e.types.emitTypeIntW 32 0).2 })

def emitConstUint32 (e : FnEmitter) (val : Nat) : Nat × FnEmitter :=
  e.uintType.2.constant 1 e.uintType.1 val

/-- `emit_undef`: void has no undefined value, an integer stands in. -/
def emitUndef (e : FnEmitter) (ty : Nat) : Nat × FnEmitter :=
  if e.types.ctx.ids .void ≠ 0 ∧ ty = e.types.ctx.ids .void then
    e.uintType.2.constant 0 e.uintType.1 0
  else e.constant 0 ty 0

def voidType (e : FnEmitter) : Nat × FnEmitter :=
  (e.types.emitTypeVoid.1, { e with types := e.types.emitTypeVoid.2 })

end FnEmitter

/-- The instructions of a function that a call is made of. -/
inductive FnInst where
  | accessChain (ty id base : Nat) (idx : List Nat)
  | load (ty id ptr : Nat)
  | store (ptr val : Nat)
  | functionCall (ty id fn : Nat) (args : List Nat)
deriving DecidableEq, Repr

structure CopyBack where
  src : Nat
  temp : Nat
  pointee : Nat
deriving DecidableEq, Repr

/-- What `emit_helper_fncall` reads of the caller's context: the emitter, the value tables,
kind and variable of the resource arguments, and the answers of
`buffer_arg_runtimearray_elem`. -/
structure CallCtx where
  emitter : FnEmitter
  tables : ValueTables
  resources : List (Nat × Nat) := []
  defaultSampler : Nat := 0
  rtarrElem : Nat → Nat := fun _ => 0

/-- What is emitted: the local variables, which go to the head of the function, the code;
and the arguments and copies that the call still needs. -/
structure CallOut where
  emitter : FnEmitter
  locals : List (Nat × Nat) := []
  code : List FnInst := []
  argv : List Nat := []
  cb : List CopyBack := []

namespace CallOut

/-- `argv[i] = a`. -/
def arg (o : CallOut) (a : Nat) : CallOut := { o with argv := o.argv++[a] }

end CallOut

namespace CallCtx

/-- The case VALUE: a type known to be another one gives an undefined value. -/
def lowerValue (c : CallCtx) (p : HelperParam) (vid : Nat) (o : CallOut) : CallOut :=
  if c.tables.spv vid = 0 ∨ (c.tables.spvType vid ≠ 0 ∧ c.tables.spvType vid ≠ p.spvTy) then
    { o with emitter := (o.emitter.emitUndef p.spvTy).2 }.arg (o.emitter.emitUndef p.spvTy).1
  else o.arg (c.tables.spv vid)

/-- The variables of the resource arguments of a kind. -/
def resourceVars (c : CallCtx) (want : Nat) : List Nat :=
  ((c.resources.take maxVertexArgs).filter fun r => decide (r.1 = want ∧ r.2 ≠ 0)).map Prod.snd

/-- A variable of the kind, else the default sampler or the first variable of the kind. -/
def resourceArg (c : CallCtx) (want vid : Nat) : Nat :=
  let a := c.tables.spv vid
  if a ∈ c.resourceVars want ∨ (want = 2 ∧ a ≠ 0 ∧ a = c.defaultSampler) then a
  else if want = 2 ∧ c.defaultSampler ≠ 0 then c.defaultSampler
  else (c.resourceVars want).headD 0

/-- The cases TEX and SAMP. -/
def lowerResource (c : CallCtx) (want vid : Nat) (o : CallOut) : Option CallOut :=
  if c.resourceArg want vid = 0 then none else some (o.arg (c.resourceArg want vid))

/-- The argument is known to point to the parameter's pointee. -/
def copies (c : CallCtx) (p : HelperParam) (vid : Nat) : Prop :=
  c.tables.spv vid ≠ 0 ∧ c.tables.spvType vid = p.spvTy

instance (c : CallCtx) (p : HelperParam) (vid : Nat) : Decidable (c.copies p vid) :=
  inferInstanceAs (Decidable (_ ∧ _))

/-- The case THREADPTR: a fresh variable, which is a copy if the argument's type is known. -/
def lowerThreadPtr (c : CallCtx) (p : HelperParam) (vid : Nat) (o : CallOut) : CallOut :=
  let temp := o.emitter.nextId
  let src := c.tables.spv vid
  let o' := { o with emitter := o.emitter.alloc, locals := o.locals++[(p.spvTy, temp)] }.arg temp
  if c.copies p vid ∧ o.cb.length < maxHelperParams then
    let ld := o'.emitter.nextId
    { o' with
      emitter := o'.emitter.alloc
      code := o.code++[.load p.pointeeSpv ld src, .store temp ld]
      cb := o.cb++[⟨src, temp, p.pointeeSpv⟩] }
  else o'

/-- The case DATABUF: an interior pointer of the type, or the first element of a block. -/
def lowerDataBuf (c : CallCtx) (p : HelperParam) (vid : Nat) (o : CallOut) : Option CallOut :=
  let a := c.tables.spv vid
  if a ≠ 0 ∧ c.tables.spvType vid = p.spvTy then some (o.arg a)
  else if a ≠ 0 ∧ c.rtarrElem vid ≠ 0 ∧ c.rtarrElem vid = p.pointeeAir then
    let chain := o.emitter.nextId
    let zero := o.emitter.alloc.emitConstUint32 0
    some (({ o with
      emitter := zero.2
      code := o.code++[.accessChain p.spvTy chain a [zero.1, zero.1]] } : CallOut).arg chain)
  else none

/-- The case STRUCTBUF. -/
def lowerStructBuf (c : CallCtx) (p : HelperParam) (vid : Nat) (o : CallOut) :
    Option CallOut :=
  if c.tables.spv vid ≠ 0 ∧ c.tables.spvType vid = p.spvTy then some (o.arg (c.tables.spv vid))
  else none

def lowerArg (c : CallCtx) (p : HelperParam) (vid : Nat) (o : CallOut) : Option CallOut :=
  match p.kind with
  | .value => some (c.lowerValue p vid o)
  | .tex => c.lowerResource 1 vid o
  | .samp => c.lowerResource 2 vid o
  | .threadPtr => some (c.lowerThreadPtr p vid o)
  | .dataBuf => c.lowerDataBuf p vid o
  | .structBuf => c.lowerStructBuf p vid o

/-- The loop over the parameters. -/
def lowerArgs (c : CallCtx) : List (HelperParam × Nat) → CallOut → Option CallOut
  | [], o => some o
  | (p, vid) :: as, o => (c.lowerArg p vid o).bind (c.lowerArgs as)

/-- The loop behind the call. -/
def copyBack : List CopyBack → CallOut → CallOut
  | [], o => o
  | b :: cb, o =>
    let ld := o.emitter.nextId
    copyBack cb { o with
      emitter := o.emitter.alloc
      code := o.code++[.load b.pointee ld b.temp, .store b.src ld] }

/-- `emit_helper_fncall`, with the operands behind the callee resolved; `none` leaves the call
to the next lowering. -/
def emitHelperFncall (c : CallCtx) (hf : HelperSig) (vids : List Nat) (resultVid : Nat) :
    Option (CallOut × CallCtx) :=
  if hf.funcId = 0 ∨ hf.emitted = false ∨ vids.length < hf.params.length ∨
      ¬(hf.retSpv = 0 ↔ resultVid = 0) then none
  else
    (c.lowerArgs (hf.params.zip vids) { emitter := c.emitter }).map fun o =>
      let res := o.emitter.nextId
      let ret := if hf.retSpv ≠ 0 then (hf.retSpv, o.emitter.alloc) else o.emitter.alloc.voidType
      let o' := copyBack o.cb { o with
        emitter := ret.2
        code := o.code++[.functionCall ret.1 res hf.funcId o.argv] }
      let tables := if resultVid ≠ 0 ∧ hf.retSpv ≠ 0 then
          (c.tables.bindValueSpv resultVid res).setValueSpvType resultVid hf.retSpv
        else c.tables
      (o', { c with emitter := o'.emitter, tables := tables })

end CallCtx

/- The tables. -/

/-- A definition enters its own value only. -/
theorem ValueTables.define_other (t : ValueTables) {v vid : Nat} (h : vid ≠ v) (d : ValueDef) :
    (t.define v d).spv vid = t.spv vid ∧ (t.define v d).spvType vid = t.spvType vid := by
  cases d with
  | alloca id => simp [define, bindValueSpv, h]
  | gep base idx id resultPtr =>
    rw [define]
    split_ifs
    · exact ⟨rfl, rfl⟩
    · simp [bindValueSpv, setValueSpvType, h]
    · simp [bindValueSpv, setValueSpvType, h]
  | cast base undef => simp [define, bindValueSpv, h]
  | param id ty => simp [define, bindValueSpv, setValueSpvType, h]
  | value id ty => simp [define, bindValueSpv, setValueSpvType, h]

theorem valueTables_unnumbered (defs : List (Nat × ValueDef)) {vid : Nat}
    (h : vid ∉ defs.map Prod.fst) :
    (valueTables defs).spv vid = 0 ∧ (valueTables defs).spvType vid = 0 := by
  induction defs with
  | nil => exact ⟨rfl, rfl⟩
  | cons d older ih =>
    have hne : vid ≠ d.1 := fun he => h (he ▸ List.mem_cons_self)
    have hother := (valueTables older).define_other hne d.2
    have hold := ih fun hm => h (List.mem_cons_of_mem _ hm)
    exact ⟨hother.1.trans hold.1, hother.2.trans hold.2⟩

/-- The types that the table holds are those that the origins of the values record. -/
theorem valueTables_type (defs : List (Nat × ValueDef)) (hnum : (defs.map Prod.fst).Nodup) :
    ∀ vid, (valueTables defs).spv vid ≠ 0 → ∃ d, origin defs vid = some d ∧
      (valueTables defs).spvType vid = d.recorded.getD 0 := by
  induction defs with
  | nil => intro vid h; exact absurd rfl h
  | cons e older ih =>
    obtain ⟨v, d⟩ := e
    have hnew : v ∉ older.map Prod.fst := (List.nodup_cons.mp hnum).1
    have hnone := valueTables_unnumbered older hnew
    have hih := ih (List.nodup_cons.mp hnum).2
    intro vid h
    rw [valueTables] at h
    rw [valueTables]
    unfold origin
    by_cases hv : vid = v
    · subst hv
      rw [if_pos rfl]
      cases d with
      | alloca id => exact ⟨_, rfl, hnone.2⟩
      | gep base idx id resultPtr =>
        simp only [ValueTables.define] at h ⊢
        by_cases hb : (valueTables older).spv base = 0
        · rw [if_pos hb] at h
          exact absurd hnone.1 h
        · rw [if_neg hb]
          by_cases hi : idx = []
          · obtain ⟨o, ho, hty⟩ := hih base hb
            refine ⟨o, by rw [if_pos hi, ho], ?_⟩
            rw [if_pos hi, ← hty]
            exact Function.update_self vid _ _
          · refine ⟨.gep base idx id resultPtr, if_neg hi, ?_⟩
            rw [if_neg hi]
            exact Function.update_self vid _ _
      | cast base undef => exact ⟨_, rfl, hnone.2⟩
      | param id ty => exact ⟨_, rfl, Function.update_self vid _ _⟩
      | value id ty => exact ⟨_, rfl, Function.update_self vid _ _⟩
    · have hother := (valueTables older).define_other hv d
      rw [if_neg hv, hother.2]
      rw [hother.1] at h
      exact hih vid h

/- What the lowering of one argument adds. -/

namespace FnEmitter

theorem nextId_alloc (e : FnEmitter) : e.alloc.nextId = e.nextId+1 := rfl

theorem nextId_constant_le (e : FnEmitter) (kind ty lit : Nat) :
    e.nextId ≤ (e.constant kind ty lit).2.nextId := by
  rw [constant]
  split
  · exact Nat.le_refl e.nextId
  · dsimp only
    split_ifs
    · exact Nat.le_succ e.nextId
    · exact Nat.le_succ e.nextId

theorem nextId_cachedType_le (s : TypeEmitter) (k : CacheSlot) (shape : TypeShape) :
    s.nextId ≤ (s.cachedType k shape).2.nextId := by
  rw [TypeEmitter.cachedType]
  split_ifs
  · exact Nat.le_refl s.nextId
  · exact Nat.le_succ s.nextId

theorem nextId_uintType_le (e : FnEmitter) : e.nextId ≤ e.uintType.2.nextId :=
  nextId_cachedType_le e.types .uint (.int 32 0)

theorem nextId_emitConstUint32_le (e : FnEmitter) (val : Nat) :
    e.nextId ≤ (e.emitConstUint32 val).2.nextId :=
  Nat.le_trans e.nextId_uintType_le (nextId_constant_le _ 1 _ val)

theorem nextId_emitUndef_le (e : FnEmitter) (ty : Nat) :
    e.nextId ≤ (e.emitUndef ty).2.nextId := by
  rw [emitUndef]
  split_ifs
  · exact Nat.le_trans e.nextId_uintType_le (nextId_constant_le _ 0 _ 0)
  · exact e.nextId_constant_le 0 ty 0

theorem nextId_voidType_le (e : FnEmitter) : e.nextId ≤ e.voidType.2.nextId :=
  nextId_cachedType_le e.types .void .void

end FnEmitter

namespace CallCtx
variable {c : CallCtx} {p : HelperParam} {vid : Nat} {o o' : CallOut}

/-- Another argument than a thread pointer adds an id, and at most interior pointers. -/
structure Other (o o' : CallOut) : Prop where
  argv : ∃ a, o'.argv = o.argv++[a]
  locals : o'.locals = o.locals
  cb : o'.cb = o.cb
  next : o.emitter.nextId ≤ o'.emitter.nextId
  code : ∃ is, o'.code = o.code++is ∧ ∀ i ∈ is, ∃ ty id base idx,
    i = .accessChain ty id base idx ∧ o.emitter.nextId ≤ id ∧ id < o'.emitter.nextId

theorem other_arg (o : CallOut) (e : FnEmitter) (a : Nat) (h : o.emitter.nextId ≤ e.nextId) :
    Other o ({ o with emitter := e }.arg a) where
  argv := ⟨a, rfl⟩
  locals := rfl
  cb := rfl
  next := h
  code := ⟨[], (List.append_nil o.code).symm, fun _ hi => absurd hi List.not_mem_nil⟩

theorem lowerResource_other {want : Nat} (h : c.lowerResource want vid o = some o') :
    Other o o' := by
  rw [lowerResource] at h
  split_ifs at h
  cases h
  exact other_arg o o.emitter _ (Nat.le_refl _)

theorem lowerDataBuf_other (h : c.lowerDataBuf p vid o = some o') : Other o o' := by
  simp only [lowerDataBuf] at h
  split_ifs at h
  · cases h
    exact other_arg o o.emitter _ (Nat.le_refl _)
  · cases h
    have hzero := o.emitter.alloc.nextId_emitConstUint32_le 0
    rw [FnEmitter.nextId_alloc] at hzero
    exact {
      argv := ⟨_, rfl⟩
      locals := rfl
      cb := rfl
      next := Nat.le_of_succ_le hzero
      code := ⟨_, rfl, fun i hi =>
        ⟨_, _, _, _, List.mem_singleton.mp hi, Nat.le_refl _, hzero⟩⟩ }

theorem lowerArg_other (hk : p.kind ≠ .threadPtr) (h : c.lowerArg p vid o = some o') :
    Other o o' := by
  rw [lowerArg] at h
  cases hkind : p.kind with
  | value =>
    rw [hkind] at h
    simp only [lowerValue, Option.some.injEq] at h
    split_ifs at h
    · rw [← h]
      exact other_arg o _ _ (o.emitter.nextId_emitUndef_le p.spvTy)
    · rw [← h]
      exact other_arg o o.emitter _ (Nat.le_refl _)
  | tex =>
    rw [hkind] at h
    exact lowerResource_other h
  | samp =>
    rw [hkind] at h
    exact lowerResource_other h
  | threadPtr => exact absurd hkind hk
  | dataBuf =>
    rw [hkind] at h
    exact lowerDataBuf_other h
  | structBuf =>
    rw [hkind] at h
    simp only [lowerStructBuf] at h
    split_ifs at h
    cases h
    exact other_arg o o.emitter _ (Nat.le_refl _)

/-- A thread pointer adds a variable, and the copy into it when the type is known. -/
theorem lowerArg_threadPtr (hk : p.kind = .threadPtr) (hlen : o.cb.length < maxHelperParams)
    (h : c.lowerArg p vid o = some o') :
    o'.argv = o.argv++[o.emitter.nextId] ∧
      o'.locals = o.locals++[(p.spvTy, o.emitter.nextId)] ∧
      (c.copies p vid ∧ o'.emitter.nextId = o.emitter.nextId+2 ∧
          o'.cb = o.cb++[⟨c.tables.spv vid, o.emitter.nextId, p.pointeeSpv⟩] ∧
          o'.code = o.code++[.load p.pointeeSpv (o.emitter.nextId+1) (c.tables.spv vid),
            .store o.emitter.nextId (o.emitter.nextId+1)] ∨
        ¬c.copies p vid ∧ o'.emitter.nextId = o.emitter.nextId+1 ∧ o'.cb = o.cb ∧
          o'.code = o.code) := by
  rw [lowerArg, hk] at h
  simp only [lowerThreadPtr, Option.some.injEq] at h
  by_cases hc : c.copies p vid
  · rw [if_pos ⟨hc, hlen⟩] at h
    subst h
    exact ⟨rfl, rfl, Or.inl ⟨hc, rfl, rfl, rfl⟩⟩
  · rw [if_neg fun hb => hc hb.1] at h
    subst h
    exact ⟨rfl, rfl, Or.inr ⟨hc, rfl, rfl, rfl⟩⟩

/-- What every argument preserves holds behind the loop. -/
theorem lowerArgs_induct {P : List (HelperParam × Nat) → CallOut → Prop} {n : Nat}
    (step : ∀ done p vid o o', done.length < n → P done o → c.lowerArg p vid o = some o' →
      P (done++[(p, vid)]) o')
    (rest : List (HelperParam × Nat)) : ∀ done o o', (done++rest).length ≤ n → P done o →
      c.lowerArgs rest o = some o' → P (done++rest) o' := by
  induction rest with
  | nil =>
    intro done o o' _ hP h
    rw [List.append_nil]
    cases h
    exact hP
  | cons a rest ih =>
    intro done o o' hn hP h
    obtain ⟨p, vid⟩ := a
    rw [lowerArgs, Option.bind_eq_some_iff] at h
    obtain ⟨o₁, h₁, h₂⟩ := h
    have hshort : done.length < n := by
      rw [List.length_append, List.length_cons] at hn
      omega
    rw [List.append_cons] at hn ⊢
    exact ih (done++[(p, vid)]) o₁ o' hn (step done p vid o o₁ hshort hP h₁) h₂

end CallCtx

end Lagfx
