import Mathlib.Tactic.IntervalCases
import Lagfx.IntegerSemantics
import Lagfx.IntrinsicDispatch
import Lagfx.TypeCaches

/-! The opcodes that integer instructions are lowered to: BINOP, the integer kinds of CAST, and
the conversions of Metal. -/
namespace Lagfx

/-- `emit_inst_binop`: an operand of unknown type is taken for a float. -/
def binopIsFloat (types : List XlateType) (lhsTy : Nat) : Bool :=
  let isFloat (t : Option XlateType) : Bool := match t with
    | some t => decide (t.kind = .float ∨ t.kind = .half)
    | none => false
  if lhsTy = airTypeNone then true
  else match types[lhsTy]? with
    | none => true
    | some t =>
      if t.kind = .vector then isFloat types[if 2 ≤ t.op.length then t.op.getD 1 0 else 0]?
      else isFloat (some t)

def binopIsBool (types : List XlateType) (lhsTy : Nat) : Bool :=
  if lhsTy = airTypeBool then true
  else if lhsTy = airTypeNone then false
  else match types[lhsTy]? with
    | none => false
    | some t =>
      -- a vector is judged by its elements, when they have a type
      let e : XlateType := if t.kind = .vector ∧ 2 ≤ t.op.length then (types[t.op.getD 1 0]?).getD t
        else t
      decide (e.kind = .integer ∧ e.op.head? = some 1)

/-- A float vector and a float scalar. -/
def binopScales (types : List XlateType) (lhsTy rhsTy : Nat) : Bool :=
  let isKind (ty : Nat) (k : AirTypeKind) : Bool :=
    decide (ty ≠ airTypeNone) && decide ((types[ty]?).map XlateType.kind = some k)
  (isKind lhsTy .vector && isKind rhsTy .float) || (isKind rhsTy .vector && isKind lhsTy .float)

/-- The opcode for a subcode of BINOP and the types of its operands. -/
def binopOpcode (types : List XlateType) (lhsTy rhsTy llvmBinop : Nat) : Option Nat :=
  let isFloat := binopIsFloat types lhsTy
  if binopIsBool types lhsTy = true ∧ llvmBinop = 10 then some 167
  else if binopIsBool types lhsTy = true ∧ llvmBinop = 11 then some 166
  else if binopIsBool types lhsTy = true ∧ llvmBinop = 12 then some 165
  else match llvmBinop with
    | 0 => some (if isFloat = true then 129 else 128)
    | 1 => some (if isFloat = true then 131 else 130)
    | 2 => some (if isFloat = false then 132
      else if binopScales types lhsTy rhsTy = true then 142 else 133)
    | 3 => some 134
    | 4 => some (if isFloat = true then 136 else 135)
    | 5 => some 137
    | 6 => some (if isFloat = true then 140 else 139)
    | 7 => some 196
    | 8 => some 194
    | 9 => some 195
    | 10 => some 199
    | 11 => some 197
    | 12 => some 198
    | _ => none

/-- `emit_inst_cast` for the kinds between numbers, but for booleans to and from floats. -/
def castOpcode (castOp : Nat) : Option Nat :=
  match castOp with
  | 0 => some 113
  | 1 => some 113
  | 2 => some 114
  | 3 => some 109
  | 4 => some 110
  | 5 => some 112
  | 6 => some 111
  | 7 => some 115
  | 8 => some 115
  | _ => none

/- The types of integers. -/

/-- What `emit_type_int_w` declares for an integer of AIR. -/
def spvIntType (width : Nat) : SpvType := if width = 1 then .bool else .int width

def SpvType.shape : SpvType → TypeShape
  | .bool => .bool
  | .int width => .int width 0

def intWidths : List Nat := [1, 8, 16, 32, 64]

def intTypes : List SpvType := intWidths.map spvIntType

theorem emitTypeIntW_shape (s : TypeEmitter) {width : Nat} (h : width ∈ intWidths) :
    ∃ k, s.emitTypeIntW width 0 = s.cachedType k (spvIntType width).shape := by
  simp only [intWidths, List.mem_cons, List.not_mem_nil, or_false] at h
  rcases h with rfl | rfl | rfl | rfl | rfl
  · exact ⟨.bool, rfl⟩
  · exact ⟨.uchar, rfl⟩
  · exact ⟨.ushort, rfl⟩
  · exact ⟨.uint, rfl⟩
  · exact ⟨.ulong, rfl⟩

/-- An index in AIR of the type or of a vector of it; comparisons give the mark of booleans. -/
def IsIntType (types : List XlateType) (t : SpvType) (ty : Nat) : Prop :=
  (ty < airTypeBool ∧ (types[ty]? = some ⟨.integer, [t.bits]⟩ ∨
    ∃ lanes elem, types[ty]? = some ⟨.vector, [lanes, elem]⟩ ∧
      types[elem]? = some ⟨.integer, [t.bits]⟩)) ∨
  (t = .bool ∧ ty = airTypeBool)

theorem intTypes_bits {t : SpvType} (ht : t ∈ intTypes) : t.bits = 1 ↔ t = .bool := by
  revert ht
  revert t
  decide

theorem airType_ne {ty : Nat} (h : ty < airTypeBool) : ty ≠ airTypeBool ∧ ty ≠ airTypeNone := by
  simp only [airTypeNone, airTypeBool] at *
  omega

theorem isIntType_isBool {types : List XlateType} {t : SpvType} {ty : Nat}
    (h : IsIntType types t ty) (ht : t ∈ intTypes) : binopIsBool types ty = decide (t = .bool) := by
  rcases h with ⟨hlt, hty⟩ | ⟨rfl, rfl⟩
  · have hbits : decide (t = .bool) = decide (t.bits = 1) :=
      decide_eq_decide.2 (intTypes_bits ht).symm
    rw [hbits, binopIsBool, if_neg (airType_ne hlt).1, if_neg (airType_ne hlt).2]
    rcases hty with hty | ⟨lanes, elem, hty, helem⟩
    · rw [hty]
      simp
    · rw [hty]
      simp [helem]
  · rfl

theorem isIntType_isFloat {types : List XlateType} {w ty : Nat}
    (h : IsIntType types (.int w) ty) : binopIsFloat types ty = false := by
  rcases h with ⟨hlt, hty⟩ | ⟨hbool, -⟩
  · rw [binopIsFloat, if_neg (airType_ne hlt).2]
    rcases hty with hty | ⟨lanes, elem, hty, helem⟩
    · rw [hty]
      rfl
    · rw [hty]
      simp [helem]
  · cases hbool

/- BINOP. -/

/-- The opcode is applicable to the operands and computes what LLVM says. -/
def BinopRight (types : List XlateType) (lhsTy rhsTy code : Nat) (t : SpvType)
    (x y : BitVec t.bits) : Prop :=
  ∃ op r, binopOpcode types lhsTy rhsTy code = some op ∧ spvBinary op t x y = some r ∧
    llvmBinop code x y = some r

/-- Integers, but for remainders of mixed signs; booleans in the logical operations. -/
def BinopFits (code : Nat) (t : SpvType) (x y : BitVec t.bits) : Prop :=
  if t = .bool then 10 ≤ code else code = 6 → x.srem y = 0#_ ∨ x.msb = y.msb

theorem binop_bool {types : List XlateType} {lhsTy : Nat} (h : IsIntType types .bool lhsTy)
    (rhsTy : Nat) {code : Nat} (hcode : code ≤ 12) (x y : BitVec SpvType.bool.bits) :
    BinopRight types lhsTy rhsTy code .bool x y ↔ 10 ≤ code := by
  have hbool := isIntType_isBool h (by decide)
  rw [decide_eq_true rfl] at hbool
  by_cases hle : 10 ≤ code
  · refine iff_of_true ?_ hle
    interval_cases code
    · exact ⟨167, x &&& y, by simp [binopOpcode, hbool], rfl, rfl⟩
    · exact ⟨166, x ||| y, by simp [binopOpcode, hbool], rfl, rfl⟩
    · exact ⟨165, x ^^^ y, by simp [binopOpcode, hbool], rfl, rfl⟩
  · refine iff_of_false ?_ hle
    rintro ⟨op, r, hop, hr, -⟩
    -- no arithmetic opcode admits a boolean, be it that of integers or that of floats
    have harith : boolBinary op x y = none := by
      simp only [binopOpcode, hbool, true_and] at hop
      generalize binopIsFloat types lhsTy = isFloat at hop
      generalize binopScales types lhsTy rhsTy = scales at hop
      cases isFloat <;> cases scales <;> interval_cases code <;>
        obtain rfl := Option.some.inj hop <;> rfl
    rw [spvBinary, harith] at hr
    cases hr

/-- The opcodes of integers by subcode. -/
def intOpcodes : List Nat := [128, 130, 132, 134, 135, 137, 139, 196, 194, 195, 199, 197, 198]

theorem binopOpcode_int {types : List XlateType} {w lhsTy : Nat} (hw : .int w ∈ intTypes)
    (h : IsIntType types (.int w) lhsTy) (rhsTy : Nat) {code : Nat} (hcode : code ≤ 12) :
    binopOpcode types lhsTy rhsTy code = some (intOpcodes.getD code 0) := by
  have hbool := isIntType_isBool h hw
  have hfloat := isIntType_isFloat h
  rw [decide_eq_false (by simp)] at hbool
  simp only [binopOpcode, hbool, hfloat, Bool.false_eq_true, false_and, if_false]
  interval_cases code <;> rfl

theorem intBinary_llvm {w : Nat} (x y : BitVec w) {code : Nat} (hcode : code ≤ 12)
    (hne : code ≠ 6) : intBinary (intOpcodes.getD code 0) x y = llvmBinop code x y := by
  interval_cases code
  all_goals first | rfl | exact absurd rfl hne

theorem binop_int {types : List XlateType} {w lhsTy : Nat} (hw : .int w ∈ intTypes)
    (h : IsIntType types (.int w) lhsTy) (rhsTy : Nat) {code : Nat} (hcode : code ≤ 12)
    (x y : BitVec (SpvType.int w).bits) (hdef : (llvmBinop code x y).isSome = true) :
    BinopRight types lhsTy rhsTy code (.int w) x y ↔
      (code = 6 → x.srem y = 0#_ ∨ x.msb = y.msb) := by
  obtain ⟨r, hr⟩ := Option.isSome_iff_exists.1 hdef
  simp only [BinopRight, binopOpcode_int hw h rhsTy hcode, spvBinary, Option.some.injEq, hr]
  by_cases hsix : code = 6
  · subst hsix
    have hok : ¬(y = 0 ∨ x = BitVec.intMin _ ∧ y = -1) := by
      intro hbad
      rw [llvmBinop, if_pos hbad] at hr
      cases hr
    rw [llvmBinop, if_neg hok] at hr
    have hsmod : intBinary (intOpcodes.getD 6 0) x y = some (x.smod y) := if_neg hok
    have hiff := smod_eq_srem_iff (x := x) (y := y) (fun hy => hok (Or.inl hy))
    rw [← hiff]
    constructor
    · rintro ⟨op, r', rfl, hspv, rfl⟩ -
      exact Option.some.inj ((hsmod.symm.trans hspv).trans hr.symm)
    · intro heq
      exact ⟨_, r, rfl, by rw [hsmod, heq rfl, hr], rfl⟩
  · refine iff_of_true ⟨_, r, rfl, ?_, rfl⟩ (fun heq => absurd heq hsix)
    rw [intBinary_llvm x y hcode hsix, hr]

/- CAST. -/

def CastRight (kind : Nat) (src dst : SpvType) (x : BitVec src.bits) : Prop :=
  ∃ op r, castOpcode kind = some op ∧ spvConvert op src dst x = some r ∧
    llvmCast kind x dst.bits = some r

/-- A boolean is neither converted nor the result of a conversion. -/
theorem spvConvert_bool (op : Nat) {src dst : SpvType} (h : src = .bool ∨ dst = .bool)
    (x : BitVec src.bits) : spvConvert op src dst x = none := by
  rcases h with rfl | rfl
  · cases dst <;> rfl
  · cases src <;> rfl

theorem cast_iff {kind : Nat} (hkind : kind ≤ 2) {src dst : SpvType} (x : BitVec src.bits)
    (hdef : (llvmCast kind x dst.bits).isSome = true) :
    CastRight kind src dst x ↔ src ≠ .bool ∧ dst ≠ .bool := by
  obtain ⟨r, hr⟩ := Option.isSome_iff_exists.1 hdef
  constructor
  · rintro ⟨op, r', -, hspv, -⟩
    refine not_or.1 fun hbool => ?_
    rw [spvConvert_bool op hbool x] at hspv
    cases hspv
  · rintro ⟨hsrc, hdst⟩
    cases src with
    | bool => exact absurd rfl hsrc
    | int a =>
      cases dst with
      | bool => exact absurd rfl hdst
      | int b =>
        refine ⟨_, r, ?_, intConvert_llvm hr, hr⟩
        interval_cases kind <;> rfl

/- The conversions of Metal. -/

def intKind (signed : Bool) : UInt8 := if signed = true then charS else charU

/-- The name of the type, or of the vector with so many lanes. -/
def intName (lanes : Nat) (t : SpvType) : List UInt8 :=
  (if lanes = 1 then [] else cstr ("v"++toString lanes))++cstr ("i"++toString t.bits)

/-- `air.convert.<kind>.<type>.<kind>.<type>`, the result first. -/
def convertCallee (lanes : Nat) (dstSigned srcSigned : Bool) (dst src : SpvType) : List UInt8 :=
  cstr "air.convert."++intKind dstSigned::charDot::
    (intName lanes dst++charDot::intKind srcSigned::charDot::intName lanes src)

theorem afterDots_part {u : List UInt8} (hu : charDot ∉ u) (n : Nat) (v : List UInt8) :
    afterDots (n+1) (u++charDot::v) = afterDots n v := by
  induction u with
  | nil => exact if_pos rfl
  | cons c u ih =>
    have hc : c ≠ charDot := fun h => hu (h ▸ List.mem_cons_self)
    rw [List.cons_append, afterDots, if_neg hc]
    exact ih fun h => hu (List.mem_cons_of_mem _ h)

theorem intName_free {lanes : Nat} (hlanes : lanes ∈ [1, 2, 3, 4]) {t : SpvType}
    (ht : t ∈ intTypes) : charDot ∉ intName lanes t := by
  revert t lanes
  decide

theorem intKind_ne (signed : Bool) : intKind signed ≠ charDot ∧ intKind signed ≠ charF := by
  cases signed <;> decide

theorem emit_integer_convert {s : CallSite} (hone : s.has 1) {lanes : Nat}
    (hlanes : lanes ∈ [1, 2, 3, 4]) (dstSigned srcSigned : Bool) {dst : SpvType}
    (hdst : dst ∈ intTypes) (src : SpvType) :
    emitInstCall s (convertCallee lanes dstSigned srcSigned dst src) =
      .convert (if dstSigned = true then 114 else 113) := by
  have hspells : Spells .plain (cstr "convert") (charDot::intKind dstSigned::charDot::
      (intName lanes dst++charDot::intKind srcSigned::charDot::intName lanes src)) :=
    ⟨by decide, fun _ ha => (Option.some.inj ha).symm, fun _ => List.cons_ne_nil _ _,
      fun _ => by decide⟩
  have hspecial := special_convert hspells hone
  have hdots : afterDots 2 (intKind dstSigned::charDot::
      (intName lanes dst++charDot::intKind srcSigned::charDot::intName lanes src)) =
      intKind srcSigned::charDot::intName lanes src := by
    rw [afterDots, if_neg (intKind_ne dstSigned).1, afterDots, if_pos rfl,
      afterDots_part (intName_free hlanes hdst)]
    rfl
  generalize hn : convertName (List.drop 1 (charDot::intKind dstSigned::charDot::
    (intName lanes dst++charDot::intKind srcSigned::charDot::intName lanes src))) = n at hspecial
  have hdstkind : n.dstkind = intKind dstSigned := by
    rw [← hn]
    rfl
  have hsrckind : n.srckind = intKind srcSigned := by
    rw [← hn]
    exact congrArg (fun l => l.headD 0) hdots
  have hop : n.convOp = if dstSigned = true then 114 else 113 := by
    rw [ConvertName.convOp, hdstkind, hsrckind]
    cases dstSigned <;> cases srcSigned <;> decide
  have hne : n.convOp ≠ 0 := by
    rw [hop]
    cases dstSigned <;> decide
  simp only [hdstkind, hsrckind, (intKind_ne dstSigned).2, (intKind_ne srcSigned).2, and_false,
    false_and, if_false, if_pos hne] at hspecial
  rw [← hop]
  exact emit_special hspecial

def ConvertRight (s : CallSite) (lanes : Nat) (dstSigned srcSigned : Bool) (src dst : SpvType)
    (x : BitVec src.bits) : Prop :=
  ∃ op r, emitInstCall s (convertCallee lanes dstSigned srcSigned dst src) = .convert op ∧
    spvConvert op src dst x = some r ∧ metalConvert srcSigned x dst.bits = r

/-- Between integers of different widths, and not one with the sign of the other. -/
def ConvertFits (dstSigned srcSigned : Bool) (src dst : SpvType) (x : BitVec src.bits) : Prop :=
  src ≠ .bool ∧ dst ≠ .bool ∧ src ≠ dst ∧
    (dstSigned = srcSigned ∨ dst.bits < src.bits ∨ x.msb = false)

theorem width_ne_one {w : Nat} (h : SpvType.int w ∈ intTypes) : w ≠ 1 := by
  rintro rfl
  revert h
  decide

/-- Extensions of the two kinds, each the other's where the top bit is clear. -/
theorem extend_eq_iff {a b : Nat} (hab : a ≠ b) (x : BitVec a) (p q : Bool) :
    (if p = true then x.signExtend b else x.setWidth b) =
      (if q = true then x.signExtend b else x.setWidth b) ↔
    p = q ∨ b < a ∨ x.msb = false := by
  have hle : b ≤ a ↔ b < a := ⟨fun h => lt_of_le_of_ne h (Ne.symm hab), le_of_lt⟩
  have hwidth := setWidth_eq_signExtend_iff (w := a) (v := b) (x := x)
  rw [hle] at hwidth
  cases p <;> cases q
  · exact iff_of_true rfl (Or.inl rfl)
  · simpa using hwidth
  · simpa using eq_comm.trans hwidth
  · exact iff_of_true rfl (Or.inl rfl)

theorem convertRight_iff {s : CallSite} (hone : s.has 1) {lanes : Nat}
    (hlanes : lanes ∈ [1, 2, 3, 4]) (dstSigned srcSigned : Bool) (src : SpvType) {dst : SpvType}
    (hdst : dst ∈ intTypes) (x : BitVec src.bits) :
    ConvertRight s lanes dstSigned srcSigned src dst x ↔
      spvConvert (if dstSigned = true then 114 else 113) src dst x =
        some (metalConvert srcSigned x dst.bits) := by
  simp only [ConvertRight, emit_integer_convert hone hlanes dstSigned srcSigned hdst src,
    CallLowering.convert.injEq]
  constructor
  · rintro ⟨op, r, rfl, hspv, hmetal⟩
    rw [hspv, hmetal]
  · intro h
    exact ⟨_, _, rfl, h, rfl⟩

theorem intConvert_metal {a b : Nat} (ha : a ≠ 1) (hb : b ≠ 1) (dstSigned srcSigned : Bool)
    (x : BitVec a) :
    intConvert (if dstSigned = true then 114 else 113) x b = some (metalConvert srcSigned x b) ↔
      a ≠ b ∧ (dstSigned = srcSigned ∨ b < a ∨ x.msb = false) := by
  by_cases hab : a = b
  · have hnone : ∀ op, intConvert op x b = none := fun op => if_pos hab
    rw [hnone]
    exact iff_of_false (Option.some_ne_none _).symm (fun h => h.1 hab)
  · have hop : intConvert (if dstSigned = true then 114 else 113) x b =
        some (if dstSigned = true then x.signExtend b else x.setWidth b) := by
      cases dstSigned <;> exact if_neg hab
    have hmetal : metalConvert srcSigned x b =
        if srcSigned = true then x.signExtend b else x.setWidth b := by
      rw [metalConvert, if_neg hb]
      simp only [ha, ne_eq, not_false_eq_true, and_true]
    rw [hop, hmetal, Option.some.injEq, extend_eq_iff hab]
    exact ⟨fun h => ⟨hab, h⟩, fun h => h.2⟩

theorem convert_iff {s : CallSite} (hone : s.has 1) {lanes : Nat} (hlanes : lanes ∈ [1, 2, 3, 4])
    (dstSigned srcSigned : Bool) {src dst : SpvType} (hsrc : src ∈ intTypes)
    (hdst : dst ∈ intTypes) (x : BitVec src.bits) :
    ConvertRight s lanes dstSigned srcSigned src dst x ↔
      ConvertFits dstSigned srcSigned src dst x := by
  rw [convertRight_iff hone hlanes dstSigned srcSigned src hdst x]
  by_cases hbool : src = .bool ∨ dst = .bool
  · rw [spvConvert_bool _ hbool x]
    exact iff_of_false (Option.some_ne_none _).symm (fun h => hbool.elim h.1 h.2.1)
  · obtain ⟨hs, hd⟩ := not_or.1 hbool
    cases src with
    | bool => exact absurd rfl hs
    | int a =>
      cases dst with
      | bool => exact absurd rfl hd
      | int b =>
        refine (intConvert_metal (width_ne_one hsrc) (width_ne_one hdst) dstSigned srcSigned
          x).trans ?_
        have hne : SpvType.int a ≠ .int b ↔ a ≠ b := by rw [ne_eq, SpvType.int.injEq]
        rw [← hne]
        exact ⟨fun h => ⟨hs, hd, h.1, h.2⟩, fun h => ⟨h.2.2.1, h.2.2.2⟩⟩

/- The instructions together. -/

/-- An integer instruction and the values of its operands, of one lane where these are vectors. -/
inductive IntInstr where
  | binop (types : List XlateType) (lhsTy rhsTy code : Nat) (t : SpvType) (x y : BitVec t.bits)
  | cast (kind : Nat) (src dst : SpvType) (x : BitVec src.bits)
  | convert (s : CallSite) (lanes : Nat) (dstSigned srcSigned : Bool) (src dst : SpvType)
    (x : BitVec src.bits)

/-- LLVM or Metal gives the instruction a result. -/
def IntInstr.Defined : IntInstr → Prop
  | .binop types lhsTy _ code t x y =>
    t ∈ intTypes ∧ IsIntType types t lhsTy ∧ code ≤ 12 ∧ (llvmBinop code x y).isSome = true
  | .cast kind src dst x =>
    src ∈ intTypes ∧ dst ∈ intTypes ∧ kind ≤ 2 ∧ (llvmCast kind x dst.bits).isSome = true
  | .convert s lanes _ _ src dst _ =>
    s.has 1 ∧ lanes ∈ [1, 2, 3, 4] ∧ src ∈ intTypes ∧ dst ∈ intTypes

/-- The opcode chosen admits the types and computes that result. -/
def IntInstr.Right : IntInstr → Prop
  | .binop types lhsTy rhsTy code t x y => BinopRight types lhsTy rhsTy code t x y
  | .cast kind src dst x => CastRight kind src dst x
  | .convert s lanes dstSigned srcSigned src dst x =>
    ConvertRight s lanes dstSigned srcSigned src dst x

def IntInstr.Fits : IntInstr → Prop
  | .binop _ _ _ code t x y => BinopFits code t x y
  | .cast _ src dst _ => src ≠ .bool ∧ dst ≠ .bool
  | .convert _ _ dstSigned srcSigned src dst x => ConvertFits dstSigned srcSigned src dst x

theorem integer_opcodes_iff (i : IntInstr) (h : i.Defined) : i.Right ↔ i.Fits := by
  cases i with
  | binop types lhsTy rhsTy code t x y =>
    obtain ⟨ht, hty, hcode, hdef⟩ := h
    cases t with
    | bool => exact binop_bool hty rhsTy hcode x y
    | int w => exact binop_int ht hty rhsTy hcode x y hdef
  | cast kind src dst x => exact cast_iff h.2.2.1 x h.2.2.2
  | convert s lanes dstSigned srcSigned src dst x =>
    exact convert_iff h.1 h.2.1 dstSigned srcSigned h.2.2.1 h.2.2.2 x

theorem sign_extension_right : (IntInstr.cast 2 (.int 8) (.int 32) (0xF9#8)).Right :=
  (integer_opcodes_iff (.cast 2 (.int 8) (.int 32) (0xF9#8))
    ⟨by decide, by decide, by decide, by decide⟩).2 ⟨by decide, by decide⟩

/-- The remainder of -1 by 2 is -1, and comes out as 1. -/
theorem remainder_of_divisor_sign : ¬∀ i : IntInstr, i.Defined → i.Right := by
  intro hall
  have hright := hall (.binop [⟨.integer, [8]⟩] 0 0 6 (.int 8) (0xFF#8) (2#8))
    ⟨by decide, Or.inl ⟨by decide, Or.inl rfl⟩, by decide, by decide⟩
  obtain ⟨op, r, hop, hspv, hllvm⟩ := hright
  obtain rfl : 139 = op := Option.some.inj hop
  have hone : r = 1#8 := (Option.some.inj hspv).symm
  have hminus : r = 0xFF#8 := (Option.some.inj hllvm).symm
  exact absurd (congrArg BitVec.toNat (hone.symm.trans hminus)) (by decide)

end Lagfx
