import Lagfx.EntrySelection
import Lagfx.Lib.PrefixTable
import Lagfx.ValueNumbering

/-! The calls of intrinsics: the name that `emit_inst_call` looks at, and the instruction that
it picks. -/
namespace Lagfx
open PrefixTable

/-- `LAGFX_SPV_GLSL_*`. -/
inductive GlslInst where
  | round | fabs | floor | ceil | fract | sin | cos | pow | exp | log | sqrt | inverseSqrt
  | fmin | fmax | fclamp | fmix | step | smoothStep | length | distance | cross | normalize
  | reflect | trunc | fsign | radians | degrees | tan | asin | acos | atan | sinh | cosh
  | tanh | atan2 | exp2 | log2 | fma | ldexp | refract
deriving DecidableEq, Repr

/-- The number of GLSL.std.450. -/
def GlslInst.number : GlslInst → Nat
  | .round => 1 | .fabs => 4 | .floor => 8 | .ceil => 9 | .fract => 10 | .sin => 13 | .cos => 14
  | .pow => 26 | .exp => 27 | .log => 28 | .sqrt => 31 | .inverseSqrt => 32 | .fmin => 37
  | .fmax => 40 | .fclamp => 43 | .fmix => 46 | .step => 48 | .smoothStep => 49 | .length => 66
  | .distance => 67 | .cross => 68 | .normalize => 69 | .reflect => 71 | .trunc => 3
  | .fsign => 6 | .radians => 11 | .degrees => 12 | .tan => 15 | .asin => 16 | .acos => 17
  | .atan => 18 | .sinh => 19 | .cosh => 20 | .tanh => 21 | .atan2 => 25 | .exp2 => 29
  | .log2 => 30 | .fma => 50 | .ldexp => 53 | .refract => 72

structure IntrinsicRow where
  glslInst : GlslInst
  numArgs : Nat
deriving DecidableEq, Repr

def intrinsicRow (key : String) (inst : GlslInst) (numArgs : Nat) : List UInt8 × IntrinsicRow :=
  (cstr key, ⟨inst, numArgs⟩)

def intrinsicTable : List (List UInt8 × IntrinsicRow) :=
  [intrinsicRow "air.fast.sqrt" .sqrt 1, intrinsicRow "air.fast.rsqrt" .inverseSqrt 1,
   intrinsicRow "air.fast.exp" .exp 1, intrinsicRow "air.fast.log" .log 1,
   intrinsicRow "air.fast.sin" .sin 1, intrinsicRow "air.fast.cos" .cos 1,
   intrinsicRow "air.fast.normalize" .normalize 1, intrinsicRow "air.fast.length" .length 1,
   intrinsicRow "air.fast.fabs" .fabs 1, intrinsicRow "air.fast.floor" .floor 1,
   intrinsicRow "air.fast.ceil" .ceil 1, intrinsicRow "air.fast.round" .round 1,
   intrinsicRow "air.fast.fract" .fract 1, intrinsicRow "air.precise.sqrt" .sqrt 1,
   intrinsicRow "air.precise.rsqrt" .inverseSqrt 1, intrinsicRow "air.precise.exp" .exp 1,
   intrinsicRow "air.precise.log" .log 1, intrinsicRow "air.precise.sin" .sin 1,
   intrinsicRow "air.precise.cos" .cos 1, intrinsicRow "air.precise.normalize" .normalize 1,
   intrinsicRow "air.precise.length" .length 1, intrinsicRow "air.fast.fmin" .fmin 2,
   intrinsicRow "air.fast.fmax" .fmax 2, intrinsicRow "air.fast.pow" .pow 2,
   intrinsicRow "air.fast.distance" .distance 2, intrinsicRow "air.fast.reflect" .reflect 2,
   intrinsicRow "air.fast.cross" .cross 2, intrinsicRow "air.fast.fclamp" .fclamp 3,
   intrinsicRow "air.fast.fmix" .fmix 3, intrinsicRow "air.fast.step" .step 2,
   intrinsicRow "air.fast.smoothstep" .smoothStep 3, intrinsicRow "air.precise.fmin" .fmin 2,
   intrinsicRow "air.precise.fmax" .fmax 2, intrinsicRow "air.precise.pow" .pow 2,
   intrinsicRow "air.precise.distance" .distance 2, intrinsicRow "air.precise.reflect" .reflect 2,
   intrinsicRow "air.precise.cross" .cross 2, intrinsicRow "air.precise.fclamp" .fclamp 3,
   intrinsicRow "air.precise.fmix" .fmix 3, intrinsicRow "air.precise.step" .step 2,
   intrinsicRow "air.precise.smoothstep" .smoothStep 3, intrinsicRow "air.fast.tan" .tan 1,
   intrinsicRow "air.fast.asin" .asin 1, intrinsicRow "air.fast.acos" .acos 1,
   intrinsicRow "air.fast.atan" .atan 1, intrinsicRow "air.fast.sinh" .sinh 1,
   intrinsicRow "air.fast.cosh" .cosh 1, intrinsicRow "air.fast.tanh" .tanh 1,
   intrinsicRow "air.fast.exp2" .exp2 1, intrinsicRow "air.fast.log2" .log2 1,
   intrinsicRow "air.fast.trunc" .trunc 1, intrinsicRow "air.fast.sign" .fsign 1,
   intrinsicRow "air.fast.radians" .radians 1, intrinsicRow "air.fast.degrees" .degrees 1,
   intrinsicRow "air.fast.atan2" .atan2 2, intrinsicRow "air.fast_atan2" .atan2 2,
   intrinsicRow "air.fast.ldexp" .ldexp 2, intrinsicRow "air.fast.refract" .refract 3,
   intrinsicRow "air.precise.tan" .tan 1, intrinsicRow "air.precise.asin" .asin 1,
   intrinsicRow "air.precise.acos" .acos 1, intrinsicRow "air.precise.atan" .atan 1,
   intrinsicRow "air.precise.sinh" .sinh 1, intrinsicRow "air.precise.cosh" .cosh 1,
   intrinsicRow "air.precise.tanh" .tanh 1, intrinsicRow "air.precise.exp2" .exp2 1,
   intrinsicRow "air.precise.log2" .log2 1, intrinsicRow "air.precise.trunc" .trunc 1,
   intrinsicRow "air.precise.sign" .fsign 1, intrinsicRow "air.precise.radians" .radians 1,
   intrinsicRow "air.precise.degrees" .degrees 1, intrinsicRow "air.precise.atan2" .atan2 2,
   intrinsicRow "air.precise.ldexp" .ldexp 2, intrinsicRow "air.precise.refract" .refract 3,
   intrinsicRow "air.mix" .fmix 3, intrinsicRow "air.fast_clamp" .fclamp 3,
   intrinsicRow "air.precise_clamp" .fclamp 3, intrinsicRow "air.fast_pow" .pow 2,
   intrinsicRow "air.precise_pow" .pow 2, intrinsicRow "air.fast_rsqrt" .inverseSqrt 1,
   intrinsicRow "air.precise_rsqrt" .inverseSqrt 1, intrinsicRow "air.fast_sqrt" .sqrt 1,
   intrinsicRow "air.precise_sqrt" .sqrt 1, intrinsicRow "air.fast_fmin" .fmin 2,
   intrinsicRow "air.fast_fmax" .fmax 2, intrinsicRow "air.fast_floor" .floor 1,
   intrinsicRow "air.fast_ceil" .ceil 1, intrinsicRow "air.fast_fract" .fract 1,
   intrinsicRow "air.fast_normalize" .normalize 1, intrinsicRow "air.fast_length" .length 1,
   intrinsicRow "air.fast_fabs" .fabs 1, intrinsicRow "air.fast_log2" .log2 1,
   intrinsicRow "air.fast_exp2" .exp2 1, intrinsicRow "air.fast_log" .log 1,
   intrinsicRow "air.fast_exp" .exp 1, intrinsicRow "air.fma." .fma 3,
   intrinsicRow "air.fast_fma" .fma 3, intrinsicRow "air.sign." .fsign 1,
   intrinsicRow "air.fast_sign" .fsign 1]

/- The name of a conversion: kind and type of the result, kind and type of the operand. -/

def charDot : UInt8 := 46

/-- Behind the next `n` dots, or at the end. -/
def afterDots : Nat → List UInt8 → List UInt8
  | 0, s => s
  | _, [] => []
  | n+1, c::s => if c = charDot then afterDots n s else afterDots (n+1) s

/-- `i1`, or `v<N>i1`, in front of what `stop` takes. -/
def isBoolType (stop : List UInt8 → Bool) (t : List UInt8) : Bool :=
  let i1 (t : List UInt8) : Bool := match t with
    | 105::49::s => stop s
    | _ => false
  i1 t || match t with
    | 118::s =>
      let n := s.dropWhile fun c => decide (48 ≤ c ∧ c ≤ 57)
      decide (n.length ≠ s.length) && i1 n
    | _ => false

/-- The characters are those of the source; 0 is the end of the name. -/
structure ConvertName where
  dstkind : UInt8
  srckind : UInt8
  srcIsBool : Bool
  dstIsBool : Bool
deriving DecidableEq, Repr

/-- What follows `air.convert.` in the name. -/
def convertName (q : List UInt8) : ConvertName where
  dstkind := q.headD 0
  srckind := (afterDots 2 q).headD 0
  srcIsBool := isBoolType (fun s => s.isEmpty) (((afterDots 2 q).dropWhile (· ≠ charDot)).drop 1)
  dstIsBool := isBoolType (fun s => decide (s = [] ∨ s.head? = some charDot))
    (if q.head? ≠ none ∧ (q.drop 1).head? = some charDot then q.drop 2 else q)

def charF : UInt8 := 102
def charS : UInt8 := 115
def charU : UInt8 := 117

/-- `conv_op`; 0 is none. -/
def ConvertName.convOp (n : ConvertName) : Nat :=
  if n.dstkind = charF ∧ n.srckind = charU then 112
  else if n.dstkind = charF ∧ n.srckind = charS then 111
  else if n.dstkind = charU ∧ n.srckind = charF then 109
  else if n.dstkind = charS ∧ n.srckind = charF then 110
  else if n.dstkind = charF ∧ n.srckind = charF then 115
  else if n.dstkind = charU then 113
  else if n.dstkind = charS then 114
  else 0

/- The call. -/

/-- A call whose callee has a name. The last four fields are what the state around the call
decides: a texture, or a texture and a sampler, are bound; `emit_float_to_bool_cmp` and
`emit_helper_fncall` lower it. -/
structure CallSite where
  numOps : Nat
  calleeSlot : Nat
  resultValueId : Nat
  resultTyAir : Nat
  resultVoid : Bool
  fragment : Bool
  textureBound : Bool
  sampledBound : Bool
  boolCompared : Bool
  helperCalled : Bool
deriving DecidableEq, Repr

def CallSite.has (s : CallSite) (args : Nat) : Prop :=
  s.calleeSlot+args < s.numOps ∧ s.resultValueId ≠ 0

instance (s : CallSite) (args : Nat) : Decidable (s.has args) := inferInstanceAs (Decidable (_ ∧ _))

/-- What is emitted for a call; numbers are opcodes. -/
inductive CallLowering where
  | selectBool
  | floatNotEqual
  | convert (op : Nat)
  | dot
  | saturate
  | sampleImage
  | fetchImage
  | reduce (op : Nat)
  | derivative (op : Nat)
  | functionCall
  | extInst (glslInst args : Nat)
  | undef
  | dropped
deriving DecidableEq, Repr

/-- `strncmp` with a literal of its length. -/
def starts (key : String) (name : List UInt8) : Bool := (cstr key).isPrefixOf name

/-- The special cases in front of the table's, in their order. -/
def specialLowering (s : CallSite) (name : List UInt8) : List (Option CallLowering) :=
  let conv := convertName (name.drop 12)
  [ if starts "air.convert." name = true ∧ conv.srcIsBool = true ∧ conv.dstkind = charF ∧
        s.has 1 then some .selectBool else none,
    if starts "air.convert." name = true ∧ conv.convOp ≠ 0 ∧ s.has 1 then
      some (if conv.dstIsBool = true ∧ conv.srckind = charF ∧ s.resultTyAir ≠ airTypeNone ∧
        s.boolCompared = true then .floatNotEqual else .convert conv.convOp) else none,
    if starts "air.dot." name = true ∧ s.has 2 then some .dot else none,
    if (starts "air.fast_saturate" name || starts "air.precise_saturate" name ||
        starts "air.saturate" name) = true ∧ s.resultTyAir ≠ airTypeNone ∧ s.has 1 then
      some .saturate else none,
    if (starts "air.sample_texture_2d" name || starts "air.sample_texture_3d" name) = true ∧
        s.has 3 ∧ s.sampledBound = true then some .sampleImage else none,
    if starts "air.read_texture_2d" name = true ∧ s.has 2 ∧ s.textureBound = true then
      some .fetchImage else none,
    if (starts "air.any." name || starts "air.all." name) = true ∧ s.has 1 then
      some (.reduce (if name.getD 4 0 = 110 then 154 else 155)) else none,
    if (starts "air.dfdx." name || starts "air.dfdy." name || starts "air.fwidth." name) = true ∧
        s.fragment = true ∧ s.resultTyAir ≠ airTypeNone ∧ s.has 1 then
      some (.derivative (if name.getD 4 0 = 102 then 209
        else if name.getD 7 0 = 120 then 207 else 208)) else none ]

/-- `emit_inst_call`, from the name of the callee on. -/
def emitInstCall (s : CallSite) (name : List UInt8) : CallLowering :=
  let glsl := lookup intrinsicTable name
  match (specialLowering s name).findSome? id with
  | some l => l
  | none =>
    if glsl = none ∧ starts "air." name = false ∧ starts "llvm." name = false ∧
        s.helperCalled = true then .functionCall
    else match glsl with
      | none => if s.resultValueId ≠ 0 ∧ s.resultVoid = false then .undef else .dropped
      | some r =>
        if s.numOps ≤ s.calleeSlot+1 ∨ r.numArgs = 0 then .dropped
        else .extInst r.glslInst.number (min r.numArgs (s.numOps-(s.calleeSlot+1)))

end Lagfx
