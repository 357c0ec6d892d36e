import Lagfx.ValueNumbering
import Lagfx.TypeCaches
import Mathlib.Data.List.Induction

/-! The AIR types that operands are looked up with, from any prefix of a body's emission. -/
namespace Lagfx
open Bits

/-- The tables of `xlate_ctx_t` behind an operand's type. -/
structure XlateCtx where
  layout : ValueLayout
  argAirTypeIds : List Nat
  localConstants : List AirConstant
  moduleConstants : List AirConstant
  valueIdCapacity : Nat
  instResultAirType : List Nat
deriving DecidableEq, Repr

/-- The declared types of the arguments. -/
def argTypesOf (types : List XlateType) (tyIdx : Nat) : List Nat :=
  match types[tyIdx]? with
  | some ⟨.function, op⟩ => op.drop 2
  | _ => []

/-- The rest of `xlate_ctx_init_fn`: no result has a type yet. -/
def xlateCtxOpen (m : AirModule) (fn : AirFunction) (b : AirBody) : XlateCtx :=
  let l := xlateCtxInitFn m fn b
  { layout := l
    argAirTypeIds := argTypesOf m.xlateTypes fn.typeIndex
    localConstants := b.localConstants
    moduleConstants := m.constants
    valueIdCapacity := u32 (l.instIdBase+l.insts.length+32)
    instResultAirType := List.replicate (l.insts.length+1) airTypeNone }

/-- `set_result_air_type`. -/
def XlateCtx.setResultAirType (c : XlateCtx) (v ty : Nat) : XlateCtx :=
  if v < c.layout.instIdBase then c
  else if v-c.layout.instIdBase < c.layout.insts.length then
    { c with instResultAirType := c.instResultAirType.set (v-c.layout.instIdBase) ty }
  else c

/-- The calls of `set_result_air_type` that the emission has made so far. -/
def XlateCtx.record (c : XlateCtx) (ws : List (Nat × Nat)) : XlateCtx :=
  ws.foldl (fun c w => c.setResultAirType w.1 w.2) c

/-- The tests of `value_air_type_idx` after the one for results, each falling through. -/
def XlateCtx.valueAirTypeRest (c : XlateCtx) (v : Nat) : Nat :=
  let lcBase := u32 (c.layout.argIdBase+c.layout.numArgs)
  let nLc := c.localConstants.length
  if c.layout.argIdBase ≤ v ∧ v-c.layout.argIdBase < c.layout.numArgs then
    c.argAirTypeIds.getD (v-c.layout.argIdBase) 0
  else if lcBase ≤ v ∧ v < u32 (lcBase+nLc) then
    (c.localConstants[v-lcBase]?.map AirConstant.typeIndex).getD 0
  else if c.layout.moduleValCount ≤ v then
    (c.moduleConstants[v-c.layout.moduleValCount]?.map AirConstant.typeIndex).getD airTypeNone
  else airTypeNone

/-- `value_air_type_idx`; the index is an `int`. -/
def XlateCtx.valueAirTypeIdx (c : XlateCtx) (v : Nat) : Nat :=
  let idx := v-c.layout.instIdBase
  let ty := c.instResultAirType.getD idx airTypeNone
  if c.layout.instIdBase ≤ v ∧ v < c.valueIdCapacity ∧ idx < 2^31 ∧
      idx < c.layout.insts.length ∧ ty ≠ airTypeNone then ty
  else c.valueAirTypeRest v

/- What the lookup is for. -/

/-- The type last recorded for a value, if it is one. -/
def recordedFor (ws : List (Nat × Nat)) (v : Nat) : Option Nat :=
  ((ws.reverse.find? fun w => decide (w.1 = v)).map Prod.snd).filter
    fun ty => decide (ty ≠ airTypeNone)

def constTypes (cs : List AirConstant) : List (Option Nat) := cs.map fun k => some k.typeIndex

/-- The values that exist before an instruction runs, in LLVM's order. -/
def staticAirTypes (m : AirModule) (fn : AirFunction) (b : AirBody) : List (Option Nat) :=
  (List.replicate (m.numGlobalvars+m.numFunctions) none ++ constTypes m.constants) ++
  ((argTypesOf m.xlateTypes fn.typeIndex).map some ++ constTypes b.localConstants)

/-- The AIR type of every value: the results follow, one number for each at most. -/
def airTypes (m : AirModule) (fn : AirFunction) (b : AirBody) (ws : List (Nat × Nat)) :
    List (Option Nat) :=
  staticAirTypes m fn b ++
  (List.range b.insts.length).map fun k => recordedFor ws ((staticAirTypes m fn b).length+k)

def airTypeOf (m : AirModule) (fn : AirFunction) (b : AirBody) (ws : List (Nat × Nat))
    (v : Nat) : Option Nat :=
  (airTypes m fn b ws)[v]?.join

/-- The value ids and the capacity fit their words, and the body is one the reader opens. -/
structure ValueIdsFit (m : AirModule) (fn : AirFunction) (b : AirBody) : Prop where
  insts : b.insts.length ≤ maxInsts
  ids : (staticAirTypes m fn b).length+b.insts.length+32 < 2^32

/-- The lookup of `v` once the emission has recorded `ws`: it finds the type of `v` or none,
and it misses none but those of module constants. -/
structure LookupRight (m : AirModule) (fn : AirFunction) (b : AirBody) (ws : List (Nat × Nat))
    (v : Nat) : Prop where
  sound : ((xlateCtxOpen m fn b).record ws).valueAirTypeIdx v = airTypeNone ∨
    airTypeOf m fn b ws v = some (((xlateCtxOpen m fn b).record ws).valueAirTypeIdx v)
  complete : m.numGlobalvars+m.numFunctions+m.constants.length ≤ v →
    ∀ ty, airTypeOf m fn b ws v = some ty →
      ((xlateCtxOpen m fn b).record ws).valueAirTypeIdx v = ty

/-- A result without a type that is as far past the module's values as one of the module's
constants is into them: the last test counts from the wrong end. -/
def StrayResult (m : AirModule) (fn : AirFunction) (b : AirBody) (ws : List (Nat × Nat))
    (v : Nat) : Prop :=
  (staticAirTypes m fn b).length ≤ v ∧
  (v < (staticAirTypes m fn b).length+b.insts.length → recordedFor ws v = none) ∧
  ∃ k, m.constants[v-(m.numGlobalvars+m.numFunctions+m.constants.length)]? = some k ∧
    k.typeIndex ≠ airTypeNone

section
variable {m : AirModule} {fn : AirFunction} {b : AirBody}

/- The tables while the emission goes on. -/

theorem record_append (c : XlateCtx) (ws : List (Nat × Nat)) (w : Nat × Nat) :
    c.record (ws++[w]) = (c.record ws).setResultAirType w.1 w.2 := by
  rw [XlateCtx.record, List.foldl_append]
  rfl

theorem setResultAirType_eq (c : XlateCtx) (v ty : Nat) :
    ∃ t, c.setResultAirType v ty = { c with instResultAirType := t } ∧
      t.length = c.instResultAirType.length := by
  rw [XlateCtx.setResultAirType]
  split_ifs
  · exact ⟨c.instResultAirType, rfl, rfl⟩
  · exact ⟨_, rfl, List.length_set⟩
  · exact ⟨c.instResultAirType, rfl, rfl⟩

/-- Only the results' types change. -/
theorem record_eq (c : XlateCtx) (ws : List (Nat × Nat)) :
    ∃ t, c.record ws = { c with instResultAirType := t } ∧
      t.length = c.instResultAirType.length := by
  induction ws using List.reverseRecOn with
  | nil => exact ⟨c.instResultAirType, rfl, rfl⟩
  | append_singleton ws w ih =>
    obtain ⟨t, ht, hlen⟩ := ih
    obtain ⟨t', ht', hlen'⟩ := setResultAirType_eq (c.record ws) w.1 w.2
    rw [record_append, ht']
    refine ⟨t', ?_, ?_⟩
    · rw [ht]
    · rw [hlen', ht, hlen]

theorem record_layout (c : XlateCtx) (ws : List (Nat × Nat)) :
    (c.record ws).layout = c.layout := by
  obtain ⟨t, ht, -⟩ := record_eq c ws
  rw [ht]

theorem record_rest (c : XlateCtx) (ws : List (Nat × Nat)) (v : Nat) :
    (c.record ws).valueAirTypeRest v = c.valueAirTypeRest v := by
  obtain ⟨t, ht, -⟩ := record_eq c ws
  rw [ht]
  rfl

theorem recordedFor_append (ws : List (Nat × Nat)) (w : Nat × Nat) (v : Nat) :
    (recordedFor (ws++[w]) v).getD airTypeNone =
    if w.1 = v then w.2 else (recordedFor ws v).getD airTypeNone := by
  simp only [recordedFor, List.reverse_append, List.reverse_singleton, List.singleton_append,
    List.find?_cons]
  by_cases hv : w.1 = v
  · by_cases hty : w.2 = airTypeNone
    · simp [hv, Option.filter, hty]
    · simp [hv, Option.filter, hty]
  · simp only [hv, decide_false, if_false]

theorem recordedFor_ne {ws : List (Nat × Nat)} {v ty : Nat} (h : recordedFor ws v = some ty) :
    ty ≠ airTypeNone :=
  of_decide_eq_true (Option.filter_eq_some_iff.1 h).2

theorem setResultAirType_slot (c : XlateCtx) (v ty : Nat) {k : Nat}
    (hk : k < c.layout.insts.length) (hroom : k < c.instResultAirType.length) :
    (c.setResultAirType v ty).instResultAirType.getD k airTypeNone =
    if v = c.layout.instIdBase+k then ty else c.instResultAirType.getD k airTypeNone := by
  rw [XlateCtx.setResultAirType]
  split_ifs with hlt hv hidx hv hv
  · omega
  · rfl
  · have hset : v-c.layout.instIdBase = k := by omega
    rw [hset, List.getD_eq_getElem?_getD, List.getElem?_set_self hroom]
    rfl
  · have hne : v-c.layout.instIdBase ≠ k := by omega
    rw [List.getD_eq_getElem?_getD, List.getElem?_set_ne hne, List.getD_eq_getElem?_getD]
  · omega
  · rfl

/-- The type that a result's slot holds is the one recorded last for its value. -/
theorem record_slot {k : Nat} (hk : k < b.insts.length) (ws : List (Nat × Nat)) :
    ((xlateCtxOpen m fn b).record ws).instResultAirType.getD k airTypeNone =
    (recordedFor ws ((xlateCtxInitFn m fn b).instIdBase+k)).getD airTypeNone := by
  have hinsts : (xlateCtxOpen m fn b).layout.insts.length = b.insts.length :=
    List.length_map ..
  induction ws using List.reverseRecOn with
  | nil =>
    change (List.replicate _ airTypeNone).getD k airTypeNone = airTypeNone
    rw [List.getD_eq_getElem?_getD, List.getElem?_replicate]
    split_ifs
    · rfl
    · rfl
  | append_singleton ws w ih =>
    obtain ⟨t, ht, hlen⟩ := record_eq (xlateCtxOpen m fn b) ws
    have hroom : k < ((xlateCtxOpen m fn b).record ws).instResultAirType.length := by
      rw [ht]
      change k < t.length
      rw [hlen, xlateCtxOpen, List.length_replicate]
      change k < (b.xlateInsts).length+1
      rw [AirBody.xlateInsts, List.length_map]
      omega
    rw [record_append, recordedFor_append, ← ih, setResultAirType_slot _ _ _ _ hroom,
      record_layout]
    · rfl
    · rw [record_layout, hinsts]
      exact hk

/- The ranges of the ids. -/

theorem argTypesOf_length (types : List XlateType) (tyIdx : Nat) :
    (argTypesOf types tyIdx).length = numArgsOf types tyIdx := by
  rw [argTypesOf, numArgsOf]
  cases types[tyIdx]? with
  | none => rfl
  | some x =>
    obtain ⟨kind, op⟩ := x
    cases kind with
    | function => exact List.length_drop
    | _ => rfl

theorem staticAirTypes_length (m : AirModule) (fn : AirFunction) (b : AirBody) :
    (staticAirTypes m fn b).length =
    m.numGlobalvars+m.numFunctions+m.constants.length+
    (numArgsOf m.xlateTypes fn.typeIndex+b.localConstants.length) := by
  simp only [staticAirTypes, List.length_append, List.length_replicate, List.length_map,
    constTypes, argTypesOf_length]

theorem constTypes_get (cs : List AirConstant) (i : Nat) :
    (constTypes cs)[i]?.join = cs[i]?.map AirConstant.typeIndex := by
  rw [constTypes, List.getElem?_map]
  cases cs[i]? with
  | none => rfl
  | some k => rfl

theorem airTypeOf_past {v : Nat} (ws : List (Nat × Nat))
    (hv : (staticAirTypes m fn b).length ≤ v) : airTypeOf m fn b ws v =
    if v < (staticAirTypes m fn b).length+b.insts.length then recordedFor ws v else none := by
  rw [airTypeOf, airTypes, List.getElem?_append_right hv, List.getElem?_map]
  split_ifs with hlt
  · rw [List.getElem?_range (by omega), Option.map_some, Nat.add_sub_of_le hv]
    rfl
  · have hout : (List.range b.insts.length).length ≤ v-(staticAirTypes m fn b).length := by
      rw [List.length_range]
      omega
    rw [List.getElem?_eq_none hout]
    rfl

theorem strayResult_iff {v : Nat} (ws : List (Nat × Nat))
    (hv : (staticAirTypes m fn b).length ≤ v) :
    StrayResult m fn b ws v ↔ airTypeOf m fn b ws v = none ∧
      (m.constants[v-(m.numGlobalvars+m.numFunctions+m.constants.length)]?.map
        AirConstant.typeIndex).getD airTypeNone ≠ airTypeNone := by
  rw [StrayResult, airTypeOf_past ws hv]
  refine (and_iff_right hv).trans (and_congr ?_ ?_)
  · split_ifs with hlt
    · exact forall_prop_of_true hlt
    · exact iff_of_true (fun h => absurd h hlt) rfl
  · cases m.constants[v-(m.numGlobalvars+m.numFunctions+m.constants.length)]? with
    | none => simp
    | some k => simp

section
variable (fit : ValueIdsFit m fn b)
include fit

theorem ValueIdsFit.moduleValCount : (xlateCtxInitFn m fn b).moduleValCount =
    m.numGlobalvars+m.numFunctions+m.constants.length := by
  have hids := fit.ids
  rw [staticAirTypes_length] at hids
  rw [xlateCtxInitFn]
  simp only [u32]
  omega

theorem ValueIdsFit.instIdBase :
    (xlateCtxInitFn m fn b).instIdBase = (staticAirTypes m fn b).length := by
  have hids := fit.ids
  have hmod := fit.moduleValCount
  rw [staticAirTypes_length] at hids ⊢
  rw [xlateCtxInitFn] at hmod ⊢
  simp only at hmod ⊢
  rw [hmod, u32]
  omega

theorem ValueIdsFit.valueIdCapacity : (xlateCtxOpen m fn b).valueIdCapacity =
    (staticAirTypes m fn b).length+b.insts.length+32 := by
  have hinsts : (xlateCtxInitFn m fn b).insts.length = b.insts.length := List.length_map ..
  have hids := fit.ids
  rw [xlateCtxOpen]
  simp only [fit.instIdBase, hinsts]
  exact Nat.mod_eq_of_lt hids

/-- The tests after the one for results, their numbers found. -/
theorem ValueIdsFit.rest_eq {base args : Nat}
    (hbase : base = m.numGlobalvars+m.numFunctions+m.constants.length)
    (hargs : args = numArgsOf m.xlateTypes fn.typeIndex) (v : Nat) :
    (xlateCtxOpen m fn b).valueAirTypeRest v =
    if base ≤ v ∧ v-base < args then (argTypesOf m.xlateTypes fn.typeIndex).getD (v-base) 0
    else if base+args ≤ v ∧ v < (staticAirTypes m fn b).length then
      (b.localConstants[v-(base+args)]?.map AirConstant.typeIndex).getD 0
    else if base ≤ v then (m.constants[v-base]?.map AirConstant.typeIndex).getD airTypeNone
    else airTypeNone := by
  have hids := fit.ids
  have hmod := fit.moduleValCount
  have hlen := staticAirTypes_length m fn b
  rw [hlen] at hids ⊢
  rw [← hbase, ← hargs] at hids ⊢
  have hlc : u32 (base+args) = base+args := Nat.mod_eq_of_lt (by omega)
  have hend : u32 (base+args+b.localConstants.length) = base+(args+b.localConstants.length) := by
    rw [Nat.add_assoc]
    exact Nat.mod_eq_of_lt (by omega)
  have harg : (xlateCtxOpen m fn b).layout.argIdBase = base := hmod.trans hbase.symm
  have hval : (xlateCtxOpen m fn b).layout.moduleValCount = base := hmod.trans hbase.symm
  have hnum : (xlateCtxOpen m fn b).layout.numArgs = args := hargs.symm
  have hlocal : (xlateCtxOpen m fn b).localConstants = b.localConstants := rfl
  rw [XlateCtx.valueAirTypeRest]
  simp only [harg, hval, hnum, hlocal, hlc, hend]
  rfl

/-- Before the results the types are those of the arguments and of the local constants. -/
theorem ValueIdsFit.rest_static {v : Nat} (ws : List (Nat × Nat))
    (hmod : m.numGlobalvars+m.numFunctions+m.constants.length ≤ v)
    (hv : v < (staticAirTypes m fn b).length) :
    airTypeOf m fn b ws v = some ((xlateCtxOpen m fn b).valueAirTypeRest v) := by
  have hlen := staticAirTypes_length m fn b
  have hargs := argTypesOf_length m.xlateTypes fn.typeIndex
  have hpre : (List.replicate (m.numGlobalvars+m.numFunctions) (none : Option Nat) ++
      constTypes m.constants).length = m.numGlobalvars+m.numFunctions+m.constants.length := by
    rw [List.length_append, List.length_replicate, constTypes, List.length_map]
  rw [airTypeOf, airTypes, List.getElem?_append_left hv, staticAirTypes,
    List.getElem?_append_right (by rw [hpre]; exact hmod), hpre, fit.rest_eq rfl rfl]
  by_cases harg : v-(m.numGlobalvars+m.numFunctions+m.constants.length) <
      numArgsOf m.xlateTypes fn.typeIndex
  · have hin := harg
    rw [← hargs] at hin
    rw [if_pos ⟨hmod, harg⟩, List.getElem?_append_left (by rw [List.length_map]; exact hin),
      List.getElem?_map, List.getElem?_eq_getElem hin, List.getD_eq_getElem _ _ hin]
    rfl
  · have hout : (argTypesOf m.xlateTypes fn.typeIndex).length ≤
        v-(m.numGlobalvars+m.numFunctions+m.constants.length) := by
      rw [hargs]
      exact Nat.le_of_not_lt harg
    have hlc : v-(m.numGlobalvars+m.numFunctions+m.constants.length+
        numArgsOf m.xlateTypes fn.typeIndex) < b.localConstants.length := by omega
    have hsub : v-(m.numGlobalvars+m.numFunctions+m.constants.length)-
        (argTypesOf m.xlateTypes fn.typeIndex).length =
        v-(m.numGlobalvars+m.numFunctions+m.constants.length+
        numArgsOf m.xlateTypes fn.typeIndex) := by
      rw [hargs]
      exact Nat.sub_sub ..
    rw [if_neg (by omega), if_pos ⟨by omega, hv⟩,
      List.getElem?_append_right (by rw [List.length_map]; exact hout), List.length_map, hsub,
      constTypes_get, List.getElem?_eq_getElem hlc]
    rfl

/-- A result without a type falls through to a module constant counted from the arguments'
base. -/
theorem ValueIdsFit.rest_past {v : Nat} (hv : (staticAirTypes m fn b).length ≤ v) :
    (xlateCtxOpen m fn b).valueAirTypeRest v =
    (m.constants[v-(m.numGlobalvars+m.numFunctions+m.constants.length)]?.map
      AirConstant.typeIndex).getD airTypeNone := by
  have hlen := staticAirTypes_length m fn b
  rw [fit.rest_eq rfl rfl, if_neg (by omega), if_neg (by omega), if_pos (by omega)]

theorem ValueIdsFit.rest_module {v : Nat}
    (hv : v < m.numGlobalvars+m.numFunctions+m.constants.length) :
    (xlateCtxOpen m fn b).valueAirTypeRest v = airTypeNone := by
  rw [fit.rest_eq rfl rfl, if_neg (by omega), if_neg (by omega), if_neg (by omega)]

/-- The first test finds the results with a type, and nothing else. -/
theorem ValueIdsFit.lookup_eq (ws : List (Nat × Nat)) (v : Nat) :
    ((xlateCtxOpen m fn b).record ws).valueAirTypeIdx v =
    if (staticAirTypes m fn b).length ≤ v ∧
        v < (staticAirTypes m fn b).length+b.insts.length then
      (recordedFor ws v).getD ((xlateCtxOpen m fn b).valueAirTypeRest v)
    else (xlateCtxOpen m fn b).valueAirTypeRest v := by
  have hbase := fit.instIdBase
  have hinsts : (xlateCtxInitFn m fn b).insts.length = b.insts.length := List.length_map ..
  have hmax := fit.insts
  rw [maxInsts] at hmax
  have hlay : ((xlateCtxOpen m fn b).record ws).layout = xlateCtxInitFn m fn b :=
    record_layout ..
  have hcap : ((xlateCtxOpen m fn b).record ws).valueIdCapacity =
      (staticAirTypes m fn b).length+b.insts.length+32 := by
    obtain ⟨t, ht, -⟩ := record_eq (xlateCtxOpen m fn b) ws
    rw [ht]
    exact fit.valueIdCapacity
  rw [XlateCtx.valueAirTypeIdx]
  simp only [hlay, hcap, hbase, hinsts, record_rest]
  by_cases hres : (staticAirTypes m fn b).length ≤ v ∧
      v < (staticAirTypes m fn b).length+b.insts.length
  · have hslot : ((xlateCtxOpen m fn b).record ws).instResultAirType.getD
        (v-(staticAirTypes m fn b).length) airTypeNone = (recordedFor ws v).getD airTypeNone := by
      rw [record_slot (by omega), hbase, Nat.add_sub_of_le hres.1]
    rw [if_pos hres, hslot]
    cases hrec : recordedFor ws v with
    | none => rw [if_neg (by simp)]; rfl
    | some ty =>
      rw [if_pos ⟨hres.1, by omega, by omega, by omega, recordedFor_ne hrec⟩]
      rfl
  · rw [if_neg hres, if_neg (by omega)]

/-- Past the results' base: the type recorded, else what the last test finds. -/
theorem ValueIdsFit.lookup_past {v : Nat} (ws : List (Nat × Nat))
    (hv : (staticAirTypes m fn b).length ≤ v) :
    ((xlateCtxOpen m fn b).record ws).valueAirTypeIdx v = (airTypeOf m fn b ws v).getD
      ((m.constants[v-(m.numGlobalvars+m.numFunctions+m.constants.length)]?.map
        AirConstant.typeIndex).getD airTypeNone) := by
  rw [fit.lookup_eq, airTypeOf_past ws hv, ← fit.rest_past hv]
  by_cases hlt : v < (staticAirTypes m fn b).length+b.insts.length
  · rw [if_pos ⟨hv, hlt⟩, if_pos hlt]
  · rw [if_neg (fun h => hlt h.2), if_neg hlt]
    rfl

end

/-- The lookup is right for all values but the results that have no type and meet a constant
of the module. -/
theorem lookup_iff (fit : ValueIdsFit m fn b) (ws : List (Nat × Nat)) (v : Nat) :
    LookupRight m fn b ws v ↔ ¬StrayResult m fn b ws v := by
  by_cases hstatic : v < (staticAirTypes m fn b).length
  · have hno : ¬StrayResult m fn b ws v := fun h => absurd h.1 (Nat.not_le_of_lt hstatic)
    refine iff_of_true ?_ hno
    have hlook : ((xlateCtxOpen m fn b).record ws).valueAirTypeIdx v =
        (xlateCtxOpen m fn b).valueAirTypeRest v := by
      rw [fit.lookup_eq, if_neg (fun h => absurd h.1 (Nat.not_le_of_lt hstatic))]
    by_cases hmod : m.numGlobalvars+m.numFunctions+m.constants.length ≤ v
    · have hrest := fit.rest_static ws hmod hstatic
      refine ⟨.inr (hlook ▸ hrest), fun _ ty hty => ?_⟩
      rw [hlook]
      exact Option.some_injective _ (hrest.symm.trans hty)
    · refine ⟨.inl ?_, fun h => absurd h hmod⟩
      rw [hlook]
      exact fit.rest_module (Nat.lt_of_not_le hmod)
  · have hv := Nat.le_of_not_lt hstatic
    have hlook := fit.lookup_past ws hv
    rw [strayResult_iff ws hv]
    cases hty : airTypeOf m fn b ws v with
    | some ty =>
      rw [hty, Option.getD_some] at hlook
      refine iff_of_true ⟨.inr ?_, fun _ ty' hty' => ?_⟩ fun h => (Option.some_ne_none _) h.1
      · rw [hlook, hty]
      · rw [hlook]
        exact Option.some_injective _ (hty.symm.trans hty')
    | none =>
      rw [hty, Option.getD_none] at hlook
      constructor
      · intro h hstray
        obtain hnone | hsome := h.sound
        · exact hstray.2 (hlook ▸ hnone)
        · exact Option.some_ne_none _ (hsome.symm.trans hty)
      · intro h
        refine ⟨.inl ?_, fun _ ty hty' => ?_⟩
        · rw [hlook]
          exact not_not.1 fun hne => h ⟨rfl, hne⟩
        · exact absurd (hty'.symm.trans hty) (Option.some_ne_none ty)

end

/- `f` of a module with the constants `undef` and `1.0`: they are 2 and 3, `x` is 4. -/

def constantModule : AirModule :=
  { floatModule with constants := [⟨.undef, 0, .i64 0⟩, ⟨.float, 0, .f64 1065353216⟩] }

/- `c = x > x`, or an INSERTVAL of `x` into `undef`, is 5. -/
def compareRecords : List LlvmInst :=
  [⟨1, [1], false, []⟩, ⟨28, [1, 1, 2], true, [4, 4]⟩, ⟨10, [1], false, [5]⟩]

def insertRecords : List LlvmInst :=
  [⟨1, [1], false, []⟩, ⟨27, [3, 1, 0], true, [2, 4]⟩, ⟨10, [1], false, [5]⟩]

/-- A comparison is found as one. -/
theorem compare_right : LookupRight constantModule floatFn (recordedBody compareRecords)
    [(5, airTypeBool)] 5 :=
  (lookup_iff ⟨by decide, by decide⟩ _ _).2 fun h => absurd (h.2.1 (by decide)) (by decide)

/-- An INSERTVAL records no type: the constant `1.0`, as far into the constants as the result
is past them, lends it its own. -/
theorem insert_mistyped : ¬LookupRight constantModule floatFn (recordedBody insertRecords)
    [(5, airTypeNone)] 5 := by
  intro h
  obtain hnone | htype := h.sound
  · exact absurd hnone (by decide)
  · exact absurd htype (by decide)

end Lagfx
