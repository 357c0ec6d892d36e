import Lagfx.BitcodeBody

/-! The value numbers of a function body: LLVM's, and those that every pass of
`translate_function.c` counts. -/
namespace Lagfx
open Bits

/-- A type of the module, its operands found. -/
structure XlateType where
  kind : AirTypeKind
  op : List Nat
deriving DecidableEq, Repr

/-- An instruction of the body, its operands found. -/
structure XlateInst where
  code : AirInstCode
  rawCode : Nat
  ops : List Nat
deriving DecidableEq, Repr

/-- `lagfx_air_module_types`. -/
def AirModule.xlateTypes (m : AirModule) : List XlateType :=
  m.types.map fun t => ⟨t.kind, if t.opOffset = 0 then [] else
    match m.arena.cells t.opOffset with
    | some (.words ws) => ws
    | _ => []⟩

/-- `lagfx_air_function_body_instructions`. -/
def AirBody.xlateInsts (b : AirBody) : List XlateInst :=
  b.insts.map fun i => ⟨i.code, i.rawCode, b.opsOf i⟩

/-- The layout of the value ids of one function. -/
structure ValueLayout where
  types : List XlateType
  insts : List XlateInst
  numArgs : Nat
  moduleValCount : Nat
  argIdBase : Nat
  localConstCount : Nat
  instIdBase : Nat
deriving DecidableEq, Repr

/-- The number of arguments of a function type; `ops[0]` is varargs, `ops[1]` the return. -/
def numArgsOf (types : List XlateType) (tyIdx : Nat) : Nat :=
  match types[tyIdx]? with
  | some ⟨.function, op⟩ => op.length-2
  | _ => 0

/-- `xlate_ctx_init_fn`: global variables, functions and module constants come first, then
arguments, the local constants and the results. -/
def xlateCtxInitFn (m : AirModule) (fn : AirFunction) (b : AirBody) : ValueLayout :=
  let numArgs := numArgsOf m.xlateTypes fn.typeIndex
  let moduleValCount := u32 (u32 (m.numGlobalvars+m.numFunctions)+m.constants.length)
  { types := m.xlateTypes
    insts := b.xlateInsts
    numArgs := numArgs
    moduleValCount := moduleValCount
    argIdBase := moduleValCount
    localConstCount := b.localConstants.length
    instIdBase := u32 (moduleValCount+numArgs+b.localConstants.length) }

def airTypeNone : Nat := 2^32-1

/-- `LAGFX_AIR_TYPE_NONE` when there is no explicit type slot, or no function type there. -/
def callReturnAirType (types : List XlateType) (i : XlateInst) : Nat :=
  if i.ops.length < 3 then airTypeNone
  else
    let ccinfo := u32 (i.ops.getD 1 0)
    if ccinfo.testBit 15 = false then airTypeNone
    else
      let fntySlot := 2 + if ccinfo.testBit 17 = true then 1 else 0
      if i.ops.length ≤ fntySlot then airTypeNone
      else match types[u32 (i.ops.getD fntySlot 0)]? with
        | some ⟨.function, _::ret::_⟩ => ret
        | _ => airTypeNone

def airTypeIsVoid (types : List XlateType) (tyIdx : Nat) : Bool :=
  match types[tyIdx]? with
  | none => true
  | some t => decide (t.kind = .void)

def instProducesValue (types : List XlateType) (i : XlateInst) : Bool :=
  match i.code with
  | .declareblocks | .store | .storeOld | .ret | .br | .switch | .unreachable => false
  | .call =>
    let ret := callReturnAirType types i
    decide (ret ≠ airTypeNone) && !airTypeIsVoid types ret
  | _ => true

/-- The loop that the passes over a body share: each instruction at the number it finds. -/
def valueWalk (types : List XlateType) : Nat → List XlateInst → List (Nat × XlateInst)
  | _, [] => []
  | v, i::is =>
    (v, i) :: valueWalk types (if instProducesValue types i = true then u32 (v+1) else v) is

/-- `value_id_at_inst`. -/
def ValueLayout.valueIdAtInst (c : ValueLayout) (instIdx : Nat) : Nat :=
  (c.insts.take instIdx).foldl
    (fun v i => if instProducesValue c.types i = true then u32 (v+1) else v) c.instIdBase

/-- The numbers of `helpers_plan_scan`, of a body that the context `ec` of the entry only
lends its module to. -/
def helpersPlanNumbers (ec : ValueLayout) (fn : AirFunction) (b : AirBody) :
    List (Nat × XlateInst) :=
  valueWalk ec.types
    (u32 (ec.moduleValCount+numArgsOf ec.types fn.typeIndex+b.localConstants.length))
    b.xlateInsts

def resolveRelative (encoded nextValId : Nat) : Nat :=
  if encoded ≤ nextValId then nextValId-encoded else encoded

/- LLVM's side. -/

/-- The function codes of instructions that have no result. -/
def llvmResultless : List Nat :=
  [1, 10, 11, 12, 15, 24, 31, 33, 35, 36, 39, 42, 44, 45, 48, 49, 55, 60, 61, 62, 63, 64, 65]

/-- The function codes of instructions that have one. -/
def llvmResultful : List Nat :=
  [2, 3, 4, 5, 6, 7, 8, 9, 16, 19, 20, 23, 26, 27, 28, 29, 30, 37, 38, 40, 41, 43, 46, 47, 50,
    51, 52, 56, 58, 59]

/-- A record of a function block, with what LLVM knows of it: whether its instruction has a
result, and the value ids that its operands mean. -/
structure LlvmInst where
  code : Nat
  ops : List Nat
  hasResult : Bool
  refs : List Nat
deriving DecidableEq, Repr

/-- As the reader surfaces it. -/
def LlvmInst.read (r : LlvmInst) : XlateInst := ⟨classifyInst r.code, r.code, r.ops⟩

def LlvmInst.explicitType (r : LlvmInst) : Bool := (r.ops.getD 1 0).testBit 15

/-- Fast-math flags come before the function type. -/
def LlvmInst.fntySlot (r : LlvmInst) : Nat :=
  2 + if (r.ops.getD 1 0).testBit 17 = true then 1 else 0

/-- CALL is `[attr, cc, fmf?, fnty, callee, args..]` when `cc` has the explicit type bit:
whether it has a result follows from the function type. -/
def LlvmInst.callResult (types : List XlateType) (r : LlvmInst) : Option Bool :=
  if r.ops.length ≤ r.fntySlot+1 then none
  else match types[r.ops.getD r.fntySlot 0]? with
    | some ⟨.function, _::ret::_⟩ => types[ret]?.map fun t => decide (t.kind ≠ .void)
    | _ => none

/-- A record that LLVM writes: 34 is CALL, 13 is INVOKE and 57 is CALLBR, whose results are
those of their callees. -/
def LlvmInst.Valid (types : List XlateType) (r : LlvmInst) : Prop :=
  (r.code ∈ llvmResultless ∧ r.hasResult = false) ∨
  (r.code ∈ llvmResultful ∧ r.hasResult = true) ∨
  (r.code = 34 ∧ (r.explicitType = true → r.callResult types = some r.hasResult)) ∨
  r.code = 13 ∨ r.code = 57

instance (types : List XlateType) (r : LlvmInst) : Decidable (r.Valid types) :=
  inferInstanceAs (Decidable (_ ∨ _))

/-- The records without a result that count as if they had one. -/
def miscounted : List Nat := [31, 33, 35, 36, 39, 42, 45, 48, 49, 55, 60, 61, 62, 63, 64, 65]

/-- Counted as LLVM counts it. -/
def LlvmInst.Counted (r : LlvmInst) : Prop :=
  r.code ∉ miscounted ∧
  (r.code = 34 → r.explicitType = false → r.hasResult = false) ∧
  (r.code = 13 ∨ r.code = 57 → r.hasResult = true)

instance (r : LlvmInst) : Decidable r.Counted := inferInstanceAs (Decidable (_ ∧ _))

/-- A function as LLVM numbers it: the body `b` of `fn` in the module `m` is what the reader
surfaces of it, and it keeps at most so many constants. -/
structure LlvmFunction (m : AirModule) (fn : AirFunction) (b : AirBody) where
  globalVars : Nat
  functions : Nat
  moduleConstants : Nat
  args : Nat
  localConstants : Nat
  records : List LlvmInst
  globalVars_read : m.numGlobalvars = globalVars
  functions_read : m.numFunctions = functions
  moduleConstants_read : m.constants.length = min moduleConstants maxConsts
  args_read : ∃ vararg ret params, m.xlateTypes[fn.typeIndex]? =
    some ⟨.function, vararg::ret::params⟩ ∧ params.length = args
  localConstants_read : b.localConstants.length = min localConstants maxLocalConsts
  records_read : b.xlateInsts = records.map LlvmInst.read
  nonempty : records ≠ []
  types_fit : m.xlateTypes.length ≤ maxTypes
  valid : ∀ r ∈ records, r.Valid m.xlateTypes
  refs_fit : ∀ r ∈ records, ∀ v ∈ r.refs, v < 2^32
  ids_fit : globalVars+functions+moduleConstants+args+localConstants+records.length < 2^32

section
variable {m : AirModule} {fn : AirFunction} {b : AirBody}

def LlvmFunction.base (l : LlvmFunction m fn b) : Nat :=
  l.globalVars+l.functions+l.moduleConstants+l.args+l.localConstants

/-- The value number at a record. -/
def LlvmFunction.number (l : LlvmFunction m fn b) (i : Nat) : Nat :=
  l.base+(l.records.take i).countP LlvmInst.hasResult

/-- The records with their numbers, from `v` on. -/
def llvmWalk : Nat → List LlvmInst → List (Nat × XlateInst)
  | _, [] => []
  | v, r::rs => (v, r.read) :: llvmWalk (v + if r.hasResult = true then 1 else 0) rs

/-- `emit_block_body` over a block, where its callers start it. -/
def ValueLayout.emitBlockNumbers (c : ValueLayout) (first last : Nat) :
    List (Nat × XlateInst) :=
  valueWalk c.types (c.valueIdAtInst first) ((c.insts.drop first).take (last-first))

/-- Operand resolution inverts the numbering: a record takes a number exactly when its
instruction has a result, each pass is at LLVM's number when it is at a record (a walk of the
whole body, the walk of a block, the plan of the helpers in any entry's context), and every
operand, written as its distance modulo 2^32, resolves to the id it means. -/
structure LlvmFunction.Resolved (l : LlvmFunction m fn b) : Prop where
  produces : ∀ r ∈ l.records, instProducesValue m.xlateTypes r.read = r.hasResult
  ids : ∀ i < l.records.length, (xlateCtxInitFn m fn b).valueIdAtInst i = l.number i
  passes : valueWalk m.xlateTypes (xlateCtxInitFn m fn b).instIdBase b.xlateInsts =
    llvmWalk l.base l.records
  blocks : ∀ first last, (xlateCtxInitFn m fn b).emitBlockNumbers first last =
    ((llvmWalk l.base l.records).drop first).take (last-first)
  planned : ∀ fn₀ b₀, helpersPlanNumbers (xlateCtxInitFn m fn₀ b₀) fn b =
    llvmWalk l.base l.records
  operands : ∀ i, (hi : i < l.records.length) → ∀ v ∈ l.records[i].refs,
    resolveRelative (sub32 (l.number i) v) ((xlateCtxInitFn m fn b).valueIdAtInst i) = v

/- A record alone. -/

theorem resolveRelative_iff {n v : Nat} (hn : n < 2^32) (hv : v < 2^32) :
    resolveRelative (sub32 n v) n = v ↔ v ≤ n ∨ 2*v = 2^32+n := by
  rw [resolveRelative, sub32]
  by_cases hle : v ≤ n
  · have henc : (n+2^32-v)%2^32 = n-v := by omega
    rw [henc, if_pos (Nat.sub_le n v)]
    omega
  · have henc : (n+2^32-v)%2^32 = n+2^32-v := by omega
    rw [henc, if_neg (by omega)]
    omega

/-- What the code alone decides; a CALL is looked into. -/
def AirInstCode.counts : AirInstCode → Bool
  | .declareblocks | .store | .storeOld | .ret | .br | .switch | .unreachable | .call => false
  | _ => true

theorem instProducesValue_of_ne {types : List XlateType} {i : XlateInst} (h : i.code ≠ .call) :
    instProducesValue types i = i.code.counts := by
  obtain ⟨code, raw, ops⟩ := i
  cases code
  case call => exact absurd rfl h
  all_goals rfl

theorem counts_resultless : ∀ code ∈ llvmResultless, classifyInst code ≠ .call ∧
    (classifyInst code).counts = decide (code ∈ miscounted) := by decide

theorem counts_resultful : ∀ code ∈ llvmResultful, classifyInst code ≠ .call ∧
    (classifyInst code).counts = true ∧ code ∉ miscounted := by decide

theorem u32_testBit (n : Nat) {k : Nat} (h : k < 32) : (u32 n).testBit k = n.testBit k := by
  rw [u32, Nat.testBit_mod_two_pow, decide_eq_true h, Bool.true_and]

theorem callReturnAirType_typed {types : List XlateType} {i : XlateInst} {slot vararg ret : Nat}
    {params : List Nat} (hcc : (u32 (i.ops.getD 1 0)).testBit 15 = true)
    (hslot : 2 + (if (u32 (i.ops.getD 1 0)).testBit 17 = true then 1 else 0) = slot)
    (hlen : slot < i.ops.length)
    (hfn : types[u32 (i.ops.getD slot 0)]? = some ⟨.function, vararg::ret::params⟩) :
    callReturnAirType types i = ret := by
  have hthree : ¬i.ops.length < 3 := by omega
  have hexplicit : ¬(u32 (i.ops.getD 1 0)).testBit 15 = false := by
    rw [hcc]
    decide
  have hroom : ¬i.ops.length ≤ slot := by omega
  rw [callReturnAirType, if_neg hthree]
  simp only [hslot]
  rw [if_neg hexplicit, if_neg hroom, hfn]

theorem call_explicit {types : List XlateType} (hfit : types.length ≤ maxTypes) {r : LlvmInst}
    (hcode : r.code = 34) (he : r.explicitType = true)
    (hc : r.callResult types = some r.hasResult) :
    instProducesValue types r.read = r.hasResult := by
  have hcc : (u32 (r.ops.getD 1 0)).testBit 15 = true :=
    (u32_testBit _ (by decide)).trans he
  rw [LlvmInst.callResult] at hc
  split_ifs at hc with hlen
  split at hc
  · rename_i vararg ret params hfn
    obtain ⟨retTy, hret, hres⟩ := Option.map_eq_some_iff.1 hc
    have hidx := (List.getElem?_eq_some_iff.1 hfn).1
    have hlt := (List.getElem?_eq_some_iff.1 hret).1
    have hcall : callReturnAirType types r.read = ret := by
      have hslot : 2 + (if (u32 (r.ops.getD 1 0)).testBit 17 = true then 1 else 0) =
          r.fntySlot := by
        rw [u32_testBit _ (by decide), LlvmInst.fntySlot]
      have hword : u32 (r.ops.getD r.fntySlot 0) = r.ops.getD r.fntySlot 0 := by
        rw [maxTypes] at hfit
        exact Nat.mod_eq_of_lt (by omega)
      exact callReturnAirType_typed hcc hslot (Nat.lt_of_succ_lt (Nat.lt_of_not_le hlen))
        ((congrArg (types[·]?) hword).trans hfn)
    have hnone : ret ≠ airTypeNone := by
      simp only [maxTypes, airTypeNone] at *
      omega
    have hcls : r.read.code = .call := by rw [LlvmInst.read, hcode]; rfl
    rw [instProducesValue, hcls]
    simp only [hcall, airTypeIsVoid, hret, ← hres, decide_eq_true hnone, Bool.true_and]
    exact (decide_not ..).symm
  · cases hc

theorem call_implicit {types : List XlateType} {r : LlvmInst} (hcode : r.code = 34)
    (he : r.explicitType = false) : instProducesValue types r.read = false := by
  have hcc : (u32 (r.ops.getD 1 0)).testBit 15 = false :=
    (u32_testBit _ (by decide)).trans he
  have hcall : callReturnAirType types r.read = airTypeNone := by
    simp only [callReturnAirType, LlvmInst.read, hcc, if_true, ite_self]
  have hcls : r.read.code = .call := by rw [LlvmInst.read, hcode]; rfl
  rw [instProducesValue, hcls]
  simp only [hcall, ne_eq, not_true, decide_false, Bool.false_and]

/-- The exact records that count as LLVM counts them. -/
theorem produces_iff {types : List XlateType} (hfit : types.length ≤ maxTypes) {r : LlvmInst}
    (hv : r.Valid types) : instProducesValue types r.read = r.hasResult ↔ r.Counted := by
  rcases hv with ⟨hcode, hres⟩ | ⟨hcode, hres⟩ | ⟨hcode, htyped⟩ | hcode
  · obtain ⟨hne, hcounts⟩ := counts_resultless r.code hcode
    have h34 : r.code ≠ 34 := by rintro h; rw [h] at hne; exact hne rfl
    have h13 : ¬(r.code = 13 ∨ r.code = 57) := by
      rintro (h | h) <;> (rw [h] at hcode; revert hcode; decide)
    rw [instProducesValue_of_ne hne, LlvmInst.Counted, hres]
    simp only [LlvmInst.read, hcounts, decide_eq_false_iff_not]
    simp [h34, h13]
  · obtain ⟨hne, hcounts, hmis⟩ := counts_resultful r.code hcode
    have h34 : r.code ≠ 34 := by rintro h; rw [h] at hne; exact hne rfl
    rw [instProducesValue_of_ne hne, LlvmInst.Counted, hres]
    simp only [LlvmInst.read, hcounts]
    simp [h34, hmis]
  · cases he : r.explicitType with
    | true => simp [call_explicit hfit hcode he (htyped he), LlvmInst.Counted, hcode, he, miscounted]
    | false =>
      rw [call_implicit hcode he, LlvmInst.Counted, hcode]
      cases r.hasResult <;> simp [miscounted, he]
  · have hcls : r.read.code = .unknown := by
      rw [LlvmInst.read]
      rcases hcode with h | h
      · rw [h]; rfl
      · rw [h]; rfl
    have hmis : r.code ∉ miscounted ∧ r.code ≠ 34 := by
      rcases hcode with h | h
      · rw [h]; decide
      · rw [h]; decide
    rw [instProducesValue_of_ne (by rw [hcls]; decide), hcls, LlvmInst.Counted]
    simp only [AirInstCode.counts, hmis.1, hmis.2, hcode, not_false_eq_true, true_and,
      true_implies, false_implies]
    exact eq_comm

/- The walks. -/

/-- The number after a record, when its instruction is counted as `hasResult`. -/
theorem valueWalk_eq {types : List XlateType} {rs : List LlvmInst} {v : Nat}
    (h : ∀ r ∈ rs, instProducesValue types r.read = r.hasResult) (hv : v+rs.length < 2^32) :
    valueWalk types v (rs.map LlvmInst.read) = llvmWalk v rs := by
  induction rs generalizing v with
  | nil => rfl
  | cons r rs ih =>
    have hr := h r List.mem_cons_self
    rw [List.length_cons] at hv
    have hu : u32 (v+1) = v+1 := Nat.mod_eq_of_lt (by omega)
    rw [List.map_cons, valueWalk, llvmWalk, hr, hu]
    congr 1
    split_ifs
    · exact ih (fun r hr => h r (List.mem_cons_of_mem _ hr)) (by omega)
    · exact ih (fun r hr => h r (List.mem_cons_of_mem _ hr)) (by omega)

theorem count_fold {types : List XlateType} {rs : List LlvmInst} {v : Nat}
    (h : ∀ r ∈ rs, instProducesValue types r.read = r.hasResult) (hv : v+rs.length < 2^32) :
    (rs.map LlvmInst.read).foldl
      (fun v i => if instProducesValue types i = true then u32 (v+1) else v) v =
    v+rs.countP LlvmInst.hasResult := by
  induction rs generalizing v with
  | nil => rfl
  | cons r rs ih =>
    have hr := h r List.mem_cons_self
    have hrest := fun r hr => h r (List.mem_cons_of_mem _ hr)
    rw [List.length_cons] at hv
    have hu : u32 (v+1) = v+1 := Nat.mod_eq_of_lt (by omega)
    rw [List.map_cons, List.foldl_cons, hr, hu, List.countP_cons]
    split_ifs
    · rw [ih hrest (by omega)]
      omega
    · exact ih hrest (by omega)

theorem valueWalk_drop (types : List XlateType) (v k : Nat) (is : List XlateInst) :
    (valueWalk types v is).drop k = valueWalk types ((is.take k).foldl
      (fun v i => if instProducesValue types i = true then u32 (v+1) else v) v) (is.drop k) := by
  induction k generalizing v is with
  | zero => rfl
  | succ k ih =>
    cases is with
    | nil => rfl
    | cons i is =>
      rw [valueWalk, List.drop_succ_cons, List.drop_succ_cons, List.take_succ_cons,
        List.foldl_cons]
      exact ih _ is

theorem valueWalk_take (types : List XlateType) (v k : Nat) (is : List XlateInst) :
    (valueWalk types v is).take k = valueWalk types v (is.take k) := by
  induction k generalizing v is with
  | zero => rfl
  | succ k ih =>
    cases is with
    | nil => rfl
    | cons i is =>
      rw [valueWalk, List.take_succ_cons, List.take_succ_cons, valueWalk, ih]

/-- A block is walked as the body is. -/
theorem emitBlockNumbers_eq (c : ValueLayout) (first last : Nat) :
    c.emitBlockNumbers first last =
      ((valueWalk c.types c.instIdBase c.insts).drop first).take (last-first) := by
  rw [valueWalk_drop, valueWalk_take]
  rfl

/-- The first number of a body: LLVM's, when no constants are left out. -/
theorem instIdBase_iff (l : LlvmFunction m fn b) :
    (xlateCtxInitFn m fn b).instIdBase = l.base ↔
      l.moduleConstants ≤ maxConsts ∧ l.localConstants ≤ maxLocalConsts := by
  obtain ⟨vararg, ret, params, hfn, hargs⟩ := l.args_read
  have hnum : numArgsOf m.xlateTypes fn.typeIndex = l.args := by
    rw [numArgsOf, hfn, ← hargs]
    rfl
  have hfit := l.ids_fit
  simp only [xlateCtxInitFn, hnum, l.globalVars_read, l.functions_read, l.moduleConstants_read,
    l.localConstants_read, LlvmFunction.base, u32]
  omega

theorem helpersPlanNumbers_eq (fn₀ : AirFunction) (b₀ : AirBody) :
    helpersPlanNumbers (xlateCtxInitFn m fn₀ b₀) fn b =
      valueWalk m.xlateTypes (xlateCtxInitFn m fn b).instIdBase b.xlateInsts := rfl

/-- With the body of LLVM's records: operand resolution inverts the numbering if and only if
the reader kept all constants, no record is a debug location, a fence, an indirect branch or
another that is counted against LLVM, and no operand is later than its record, but for one
that is its own encoding. -/
theorem resolved_iff (l : LlvmFunction m fn b) :
    l.Resolved ↔ (l.moduleConstants ≤ maxConsts ∧ l.localConstants ≤ maxLocalConsts) ∧
      (∀ r ∈ l.records, r.Counted) ∧
      ∀ i, (hi : i < l.records.length) → ∀ v ∈ l.records[i].refs,
        v ≤ l.number i ∨ 2*v = 2^32+l.number i := by
  have hcounted : (∀ r ∈ l.records, instProducesValue m.xlateTypes r.read = r.hasResult) ↔
      ∀ r ∈ l.records, r.Counted :=
    forall₂_congr fun r hr => produces_iff l.types_fit (l.valid r hr)
  have hnumber : ∀ i, l.number i < 2^32 := by
    intro i
    have hcount : (l.records.take i).countP LlvmInst.hasResult ≤ l.records.length :=
      Nat.le_trans List.countP_le_length (List.length_take_le' i l.records)
    have hfit := l.ids_fit
    simp only [LlvmFunction.number, LlvmFunction.base]
    omega
  have hoperands (hids : ∀ i < l.records.length,
      (xlateCtxInitFn m fn b).valueIdAtInst i = l.number i) :
      (∀ i, (hi : i < l.records.length) → ∀ v ∈ l.records[i].refs,
        resolveRelative (sub32 (l.number i) v) ((xlateCtxInitFn m fn b).valueIdAtInst i) = v) ↔
      ∀ i, (hi : i < l.records.length) → ∀ v ∈ l.records[i].refs,
        v ≤ l.number i ∨ 2*v = 2^32+l.number i := by
    refine forall₂_congr fun i hi => forall₂_congr fun v hv => ?_
    rw [hids i hi]
    exact resolveRelative_iff (hnumber i) (l.refs_fit _ (List.getElem_mem hi) v hv)
  constructor
  · intro h
    have hbase : (xlateCtxInitFn m fn b).instIdBase = l.base := by
      have hzero := h.ids 0 (List.length_pos_iff.2 l.nonempty)
      simpa [ValueLayout.valueIdAtInst, LlvmFunction.number] using hzero
    exact ⟨(instIdBase_iff l).1 hbase, hcounted.1 h.produces, (hoperands h.ids).1 h.operands⟩
  · rintro ⟨hcaps, hrecs, hback⟩
    have hbase := (instIdBase_iff l).2 hcaps
    have hprod := hcounted.2 hrecs
    have hfit : l.base+l.records.length < 2^32 := l.ids_fit
    have hids : ∀ i < l.records.length,
        (xlateCtxInitFn m fn b).valueIdAtInst i = l.number i := by
      intro i hi
      have hlen : (l.records.take i).length ≤ l.records.length := List.length_take_le' ..
      have htake : (xlateCtxInitFn m fn b).insts.take i =
          (l.records.take i).map LlvmInst.read := by
        rw [List.map_take, ← l.records_read]
        rfl
      rw [ValueLayout.valueIdAtInst, htake, hbase]
      exact count_fold (fun r hr => hprod r (List.mem_of_mem_take hr)) (by omega)
    have hpasses : valueWalk m.xlateTypes (xlateCtxInitFn m fn b).instIdBase b.xlateInsts =
        llvmWalk l.base l.records := by
      rw [hbase, l.records_read]
      exact valueWalk_eq hprod hfit
    refine ⟨hprod, hids, hpasses, fun first last => ?_, fun fn₀ b₀ => ?_, (hoperands hids).2 hback⟩
    · rw [emitBlockNumbers_eq, ← hpasses]
      rfl
    · rw [helpersPlanNumbers_eq, hpasses]

end

/- `float f(float x)` and `void g()`, with the types `float`, `float (float)`, `void` and
`void ()`. -/

def floatModule : AirModule :=
  { arena := ((Arena.init 4096 2).put 8 (.words [0, 0, 0])).put 24 (.words [0, 2])
    types := [⟨.float, none, 0, 0, 0⟩, ⟨.function, some ⟨0, 8⟩, 3, 0, 8⟩, ⟨.void, none, 0, 0, 0⟩,
      ⟨.function, some ⟨0, 24⟩, 2, 0, 24⟩]
    numFunctions := 2 }

def floatFn : AirFunction := ⟨0, 0, 1, 0, 0, 0, false, 64, 64⟩

/-- The body that the reader makes of records. -/
def recordedBody (rs : List LlvmInst) : AirBody :=
  rs.foldl (fun b r => (instRecord allGranted b ⟨r.code, r.ops, none⟩).getD b)
    { arena := Arena.init 4096 2, instsOff := 8, instsPtr := ⟨0, 8⟩ }

/-- `f` with such a body: `f` is 0, `g` is 1 and `x` is 2. -/
def floatFunction (rs : List LlvmInst)
    (h : (recordedBody rs).xlateInsts = rs.map LlvmInst.read ∧
      (recordedBody rs).localConstants = [] ∧ rs ≠ [] ∧ rs.length < 4096 ∧
      ∀ r ∈ rs, r.Valid floatModule.xlateTypes ∧ ∀ v ∈ r.refs, v < 2^32) :
    LlvmFunction floatModule floatFn (recordedBody rs) where
  globalVars := 0
  functions := 2
  moduleConstants := 0
  args := 1
  localConstants := 0
  records := rs
  globalVars_read := rfl
  functions_read := rfl
  moduleConstants_read := rfl
  args_read := ⟨0, 0, [0], by decide, rfl⟩
  localConstants_read := by rw [h.2.1]; rfl
  records_read := h.1
  nonempty := h.2.2.1
  types_fit := by decide
  valid r hr := (h.2.2.2.2 r hr).1
  refs_fit r hr := (h.2.2.2.2 r hr).2
  ids_fit := by have := h.2.2.2.1; omega

/- `g()`, then `y = f(x)` with fast-math flags and `return y`. -/
def callRecords : List LlvmInst :=
  [⟨1, [1], false, []⟩, ⟨34, [0, 2^15, 3, 2], false, [1]⟩,
    ⟨34, [0, 2^15+2^17, 127, 1, 3, 1], true, [0, 2]⟩, ⟨10, [1], false, [3]⟩]

theorem callRecords_resolved : (floatFunction callRecords (by decide)).Resolved :=
  (resolved_iff _).2 (by decide)

/- `y = x+x` at a line of the source, `return y`. -/
def lineRecords : List LlvmInst :=
  [⟨1, [1], false, []⟩, ⟨35, [7, 1, 1, 0, 0], false, []⟩, ⟨2, [1, 1, 0], true, [2, 2]⟩,
    ⟨10, [1], false, [3]⟩]

/- The block of `z = y+x` is listed before that of `y = x+x`: `z` is 3 and `y` is 4. -/
def forwardRecords : List LlvmInst :=
  [⟨1, [3], false, []⟩, ⟨11, [2], false, []⟩, ⟨2, [2^32-1, 0, 1, 0], true, [4, 2]⟩,
    ⟨10, [1], false, [3]⟩, ⟨2, [2, 2, 0], true, [2, 2]⟩, ⟨11, [1], false, []⟩]

/-- A debug location is counted, and a forward operand resolves to its encoding. -/
theorem line_forward_unresolved : ¬(floatFunction lineRecords (by decide)).Resolved ∧
    ¬(floatFunction forwardRecords (by decide)).Resolved := by
  constructor
  · intro h
    exact absurd (h.produces ⟨35, [7, 1, 1, 0, 0], false, []⟩ (by decide)) (by decide)
  · intro h
    have hres := h.operands 2 (by decide) 4 (by decide)
    exact absurd hres (by decide)

end Lagfx
