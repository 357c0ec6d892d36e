import Lagfx.IntrinsicCalls

/-! The spellings of intrinsic names, what they stand for, and the table of intrinsics under
each of them. -/
namespace Lagfx
open PrefixTable

/- What names stand for. -/

/-- The ways an operation is spelled: `air.`, `air.fast_`, `air.precise_`, `air.fast.` and
`air.precise.`. -/
inductive Spelling where
  | plain | fastBar | preciseBar | fastDot | preciseDot
deriving DecidableEq, Repr

def Spelling.key : Spelling → List UInt8
  | .plain => cstr "air."
  | .fastBar => cstr "air.fast_"
  | .preciseBar => cstr "air.precise_"
  | .fastDot => cstr "air.fast."
  | .preciseDot => cstr "air.precise."

def spellings : List Spelling := [.fastBar, .preciseBar, .fastDot, .preciseDot, .plain]

/-- `op` is the name's operation, `rest` its type suffix. -/
structure Spells (f : Spelling) (op rest : List UInt8) : Prop where
  op_free : charDot ∉ op
  rest_ends : EndsAt charDot rest
  plain_suffix : f = .plain → rest ≠ []
  plain_op : f = .plain → op ≠ cstr "fast" ∧ op ≠ cstr "precise" ∧
    ¬cstr "fast_" <+: op ∧ ¬cstr "precise_" <+: op

inductive IntrinsicOp where
  | extInst (glslInst numArgs : Nat)
  | any | all | dpdx | dpdy | fwidth | dot | saturate | convert
deriving DecidableEq, Repr

/-- The operation of what is emitted; the texture accesses are not of the table. -/
def CallLowering.operation : CallLowering → Option IntrinsicOp
  | .extInst inst args => some (.extInst inst args)
  | .selectBool | .floatNotEqual | .convert _ => some .convert
  | .dot => some .dot
  | .saturate => some .saturate
  | .reduce op => some (if op = 154 then .any else .all)
  | .derivative op => some (if op = 207 then .dpdx else if op = 208 then .dpdy else .fwidth)
  | .sampleImage | .fetchImage | .functionCall | .undef | .dropped => none

/-- The operation that a key of the table names. -/
def keyOp (key : List UInt8) : List UInt8 :=
  match spellings.find? fun f => f.key.isPrefixOf key with
  | some f => (key.drop f.key.length).takeWhile (· ≠ charDot)
  | none => key

/-- The special cases by name. -/
def specialOps : List (List UInt8 × IntrinsicOp) :=
  [(cstr "any", .any), (cstr "all", .all), (cstr "dfdx", .dpdx), (cstr "dfdy", .dpdy),
   (cstr "fwidth", .fwidth), (cstr "dot", .dot), (cstr "saturate", .saturate),
   (cstr "convert", .convert)]

/-- The entry that has exactly this name. -/
def intrinsicEntry (op : List UInt8) : Option IntrinsicOp :=
  match specialOps.find? fun e => e.1 = op with
  | some e => some e.2
  | none => (intrinsicTable.find? fun r => keyOp r.1 = op).map fun r =>
      .extInst r.2.glslInst.number r.2.numArgs

def knownOps : List (List UInt8) :=
  specialOps.map Prod.fst++intrinsicTable.map fun r => keyOp r.1

/-- The table under one spelling. -/
def rowsOf (f : Spelling) : List (List UInt8 × IntrinsicRow) :=
  intrinsicTable.filterMap (strip f.key)

/-- The rows spelled `air.` and nothing else. -/
def plainRows : List (List UInt8 × IntrinsicRow) :=
  [(cstr "mix", ⟨.fmix, 3⟩), (cstr "fma.", ⟨.fma, 3⟩), (cstr "sign.", ⟨.fsign, 1⟩)]

/-- Whether a key behind `air.` begins like that of another spelling. -/
def respelled (key : List UInt8) : Bool :=
  (cstr "fast_").isPrefixOf key || (cstr "precise_").isPrefixOf key ||
    (cstr "fast.").isPrefixOf key || (cstr "precise.").isPrefixOf key

def IntrinsicRow.operation (r : IntrinsicRow) : IntrinsicOp :=
  .extInst r.glslInst.number r.numArgs

/-- The operation of a name of this spelling, which is no conversion, by the order of the
rows and of the special cases. -/
def dispatched (f : Spelling) (op : List UInt8) : Option IntrinsicOp :=
  match f with
  | .plain =>
    if op = cstr "dot" then some .dot
    else if cstr "saturate" <+: op then some .saturate
    else if op = cstr "any" ∨ op = cstr "all" then some .all
    else if op = cstr "dfdx" then some .dpdx
    else if op = cstr "dfdy" then some .dpdy
    else if op = cstr "fwidth" then some .fwidth
    else if cstr "mix" <+: op then some (.extInst 46 3)
    else if op = cstr "fma" then some (.extInst 50 3)
    else if op = cstr "sign" then some (.extInst 6 1)
    else none
  | .fastBar | .preciseBar =>
    if cstr "saturate" <+: op then some .saturate
    else (lookup (rowsOf f) op).map IntrinsicRow.operation
  | .fastDot | .preciseDot => (lookup (rowsOf f) op).map IntrinsicRow.operation

/-- The operations that a spelling gives what they name. -/
def rightOps : Spelling → List (List UInt8)
  | .plain =>
    ["mix", "fma", "sign", "dot", "saturate", "all", "dfdx", "dfdy", "fwidth", "convert"].map cstr
  | .fastBar =>
    ["atan2", "clamp", "pow", "rsqrt", "sqrt", "fmin", "fmax", "floor", "ceil", "fract",
     "normalize", "length", "fabs", "log2", "exp2", "log", "exp", "fma", "sign",
     "saturate"].map cstr
  | .preciseBar => ["clamp", "pow", "rsqrt", "sqrt", "saturate"].map cstr
  | .fastDot =>
    ["sqrt", "rsqrt", "exp", "log", "sin", "cos", "normalize", "length", "fabs", "floor", "ceil",
     "round", "fract", "fmin", "fmax", "pow", "distance", "reflect", "cross", "fclamp", "fmix",
     "step", "smoothstep", "tan", "asin", "acos", "atan", "trunc", "sign", "radians", "degrees",
     "ldexp", "refract"].map cstr
  | .preciseDot =>
    ["sqrt", "rsqrt", "exp", "log", "sin", "cos", "normalize", "length", "fmin", "fmax", "pow",
     "distance", "reflect", "cross", "fclamp", "fmix", "step", "smoothstep", "tan", "asin",
     "acos", "atan", "trunc", "sign", "radians", "degrees", "ldexp", "refract"].map cstr

-- three evaluations of the table for all that is asked of it
theorem intrinsicTable_checked :
    (∀ r ∈ intrinsicTable, intrinsicEntry (keyOp r.1) = some r.2.operation ∧ r.2.numArgs ≠ 0 ∧
      ∀ r' ∈ intrinsicTable, r'.2.glslInst.number = r.2.glslInst.number →
        r'.2.numArgs = r.2.numArgs) ∧
    (∀ f ∈ spellings, (∀ r ∈ intrinsicTable, r.1 <+: f.key → f.key <+: r.1) ∧
      (f ≠ .plain → ∀ r ∈ rowsOf f, charDot ∉ r.1) ∧
      ∀ op ∈ knownOps, (f = .plain → op ≠ cstr "convert") →
        (dispatched f op = intrinsicEntry op ↔ op ∈ rightOps f)) ∧
    (rowsOf .plain).filter (fun r => !respelled r.1) = plainRows := by
  have hrows : ∀ r ∈ intrinsicTable, intrinsicEntry (keyOp r.1) = some r.2.operation ∧
      r.2.numArgs ≠ 0 ∧ ∀ r' ∈ intrinsicTable, r'.2.glslInst.number = r.2.glslInst.number →
        r'.2.numArgs = r.2.numArgs := by decide +kernel
  have hkeys : (∀ f ∈ spellings, (∀ r ∈ intrinsicTable, r.1 <+: f.key → f.key <+: r.1) ∧
      (f ≠ .plain → ∀ r ∈ rowsOf f, charDot ∉ r.1)) ∧
        (rowsOf .plain).filter (fun r => !respelled r.1) = plainRows := by decide +kernel
  have hops : ∀ f ∈ spellings, ∀ op ∈ knownOps, (f = .plain → op ≠ cstr "convert") →
      (dispatched f op = intrinsicEntry op ↔ op ∈ rightOps f) := by decide +kernel
  refine ⟨hrows, fun f hf => ?_, hkeys.2⟩
  obtain ⟨hcut, hfree⟩ := hkeys.1 f hf
  exact ⟨hcut, hfree, hops f hf⟩

theorem mem_spellings (f : Spelling) : f ∈ spellings := by
  cases f <;> decide

theorem intrinsicEntry_eq_none {op : List UInt8} : intrinsicEntry op = none ↔ op ∉ knownOps := by
  rw [intrinsicEntry, knownOps, List.mem_append, not_or]
  cases hs : specialOps.find? fun e => e.1 = op with
  | some e =>
    have he : e.1 = op := by simpa using List.find?_some hs
    simp only [reduceCtorEq, false_iff, not_and]
    exact fun hno _ => hno (he ▸ List.mem_map_of_mem (List.mem_of_find?_eq_some hs))
  | none =>
    simp only [List.find?_eq_none, decide_eq_true_eq] at hs
    simp only [Option.map_eq_none_iff, List.find?_eq_none, decide_eq_true_eq, List.mem_map,
      not_exists, not_and]
    refine ⟨fun h => ⟨?_, h⟩, fun h => h.2⟩
    exact fun e he => hs e he

theorem special_ne_extInst : ∀ e ∈ specialOps, ∀ inst args, e.2 ≠ .extInst inst args := by
  simp [specialOps]

theorem intrinsicEntry_row {op : List UInt8} {inst args : Nat}
    (h : intrinsicEntry op = some (.extInst inst args)) :
    ∃ r ∈ intrinsicTable, inst = r.2.glslInst.number := by
  rw [intrinsicEntry] at h
  cases hs : specialOps.find? fun e => e.1 = op with
  | some e =>
    rw [hs] at h
    exact absurd (Option.some.inj h) (special_ne_extInst e (List.mem_of_find?_eq_some hs) _ _)
  | none =>
    rw [hs] at h
    obtain ⟨r, hr, heq⟩ := Option.map_eq_some_iff.1 h
    exact ⟨r, List.mem_of_find?_eq_some hr, (IntrinsicOp.extInst.inj heq).1.symm⟩

/-- An entry of the table has the arguments of its rows. -/
theorem intrinsicEntry_extInst {op : List UInt8} {inst args : Nat}
    (h : intrinsicEntry op = some (.extInst inst args)) {r : List UInt8 × IntrinsicRow}
    (hr : r ∈ intrinsicTable) (hinst : inst = r.2.glslInst.number) : args = r.2.numArgs := by
  rw [intrinsicEntry] at h
  cases hs : specialOps.find? fun e => e.1 = op with
  | some e =>
    rw [hs] at h
    exact absurd (Option.some.inj h) (special_ne_extInst e (List.mem_of_find?_eq_some hs) _ _)
  | none =>
    rw [hs] at h
    obtain ⟨r', hr', heq⟩ := Option.map_eq_some_iff.1 h
    obtain ⟨hnumber, hargs⟩ := IntrinsicOp.extInst.inj heq
    rw [← hargs]
    exact (intrinsicTable_checked.1 r hr).2.2 r' (List.mem_of_find?_eq_some hr')
      (hnumber.trans hinst)

end Lagfx
