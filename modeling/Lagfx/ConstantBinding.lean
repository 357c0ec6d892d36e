import Mathlib.Data.List.Forall2
import Lagfx.ConstantBlocks
import Lagfx.TypeCaches

/-! The constants of a module and of a function body as they are bound to constants of SPIR-V,
against what their records denote. -/
namespace Lagfx

/- Constants of SPIR-V. -/

/-- The type that a constant asks for: one of the translator's own, or one of the module. -/
inductive ConstType where
  | float32
  | half
  | int (width : Nat)
  | air (idx : Nat)
deriving DecidableEq, Repr

/-- A constant instruction; the components stand for their ids. -/
inductive SpvConst where
  | scalar (ty : ConstType) (words : List Nat)
  | null (ty : ConstType)
  | undef (ty : ConstType)
  | composite (ty : ConstType) (parts : List SpvConst)
deriving Repr

/-- What a record is bound to, and its literal for shuffle masks and indices. -/
structure ConstBinding where
  spv : Option SpvConst := none
  lit : Option Int := none

/-- `value_id_to_spv` and `value_id_to_lit_i32`. -/
structure BoundValues where
  spv : Nat → Option SpvConst := fun _ => none
  lit : Nat → Option Int := fun _ => none

/-- `bind_value_spv` and `bind_value_lit_i32`, where there is something to bind. -/
def BoundValues.bind (s : BoundValues) (vid : Nat) (b : ConstBinding) : BoundValues where
  spv := if b.spv.isSome = true then Function.update s.spv vid b.spv else s.spv
  lit := if b.lit.isSome = true then Function.update s.lit vid b.lit else s.lit

/- Payloads. -/

/-- The union as 64 bits. -/
def ConstantPayload.raw : ConstantPayload → Nat
  | .i64 v => (v%2^64).toNat
  | .f64 bits => u64 bits
  | _ => 0

def ConstantPayload.u32s : ConstantPayload → List Nat
  | .words ws => ws
  | _ => []

def toInt32 (bits : Nat) : Int := if u32 bits < 2^31 then u32 bits else (u32 bits : Int)-2^32

def toInt64 (bits : Nat) : Int := if u64 bits < 2^63 then u64 bits else (u64 bits : Int)-2^64

/-- Division by a power of two, to the nearest and then to the even. -/
def shiftNearestEven (m s : Nat) : Nat :=
  if 2^s < 2*(m%2^s) ∨ (2*(m%2^s) = 2^s ∧ m/2^s%2 = 1) then m/2^s+1 else m/2^s

/-- `f32_bits_from_double`, on the bits of the double. -/
def f32BitsFromDouble (x : Nat) : Nat :=
  let sign := x/2^63%2*2^31
  let e := x/2^52%2^11
  let m := x%2^52
  let infinity := 255*2^23
  if e = 2047 then sign+infinity+(if m = 0 then 0 else m/2^29 ||| 2^22)
  else
    let significand := if e = 0 then m else 2^52+m
    -- the carry of the rounding goes to the exponent, and from the greatest one to infinity
    sign+min ((e-897)*2^23+shiftNearestEven significand (max 29 (926-max e 1))) infinity

/- Types. -/

/-- The widths that integers are bound with. -/
def boundWidths : List Nat := [8, 16, 32, 64]

/-- `air_type_requires_extra_cap` with so many levels left. -/
def requiresExtraCap (types : List XlateType) : Nat → Nat → Bool
  | 0, _ => false
  | depth+1, idx =>
    match types[idx]? with
    | none => false
    | some t => match t.kind with
      | .integer => decide (t.op.getD 0 32 ∉ boundWidths)
      | .array => decide (t.op.head? = some 0) || requiresExtraCap types depth (t.op.getD 1 0)
      | .vector | .pointer => requiresExtraCap types depth (t.op.getD 1 0)
      | .structAnon | .structNamed => (t.op.drop 1).any (requiresExtraCap types depth)
      | _ => false

def airTypeRequiresExtraCap (types : List XlateType) (idx : Nat) : Bool :=
  requiresExtraCap types 9 idx

/-- `emit_undef`: no void has a value. -/
def emitUndef (types : List XlateType) (ty : ConstType) : SpvConst :=
  match ty with
  | .air idx =>
    if (types[idx]?).map XlateType.kind = some .void then .undef (.int 32) else .undef ty
  | _ => .undef ty

/- The switch of `bind_module_constants`. -/

def moduleInteger (w : Nat) (p : ConstantPayload) : ConstBinding :=
  if w = 8 ∨ w = 16 then
    let mask := if w = 8 then 2^8 else 2^16
    { spv := some (.scalar (.int w) [u32 p.raw%mask]), lit := some (toInt32 (p.raw%mask)) }
  else if w = 32 then
    { spv := some (.scalar (.int 32) [u32 p.raw]), lit := some (toInt32 p.raw) }
  else if w = 64 then
    { spv := some (.scalar (.int 64) [u32 p.raw, p.raw/2^32])
      lit := if -2^31 ≤ toInt64 p.raw ∧ toInt64 p.raw < 2^31 then some (toInt32 p.raw) else none }
  else {}

def moduleConstant (types : List XlateType) (k : ConstantContent) : ConstBinding :=
  match k.kind with
  | .integer => match types[k.typeIndex]? with
    | none => {}
    | some t => if t.kind = .integer then moduleInteger (t.op.getD 0 32) k.payload else {}
  | .float => { spv := some (.scalar .float32 [f32BitsFromDouble k.payload.raw]) }
  | .null => match types[k.typeIndex]? with
    | none => {}
    | some t =>
      if airTypeRequiresExtraCap types k.typeIndex = true then {}
      else
        { spv := some (.null (.air k.typeIndex))
          lit := if t.kind = .integer then some 0 else none }
  | _ => {}

/- The switch of `bind_local_constants`. -/

def localInteger (w : Nat) (p : ConstantPayload) : ConstBinding where
  spv :=
    if w = 8 ∨ w = 16 then
      some (.scalar (.int w) [u32 p.raw%(if w = 8 then 2^8 else 2^16)])
    else if w = 32 then some (.scalar (.int 32) [u32 p.raw])
    else if w = 64 then some (.scalar (.int 64) [u32 p.raw, p.raw/2^32])
    else none
  lit :=
    if w = 8 ∨ w = 16 then some (toInt32 (p.raw%(if w = 8 then 2^8 else 2^16)))
    else if w = 32 then some (toInt32 p.raw)
    else if w = 64 ∧ -2^31 ≤ toInt64 p.raw ∧ toInt64 p.raw < 2^31 then some (toInt32 p.raw)
    else none

/-- A vector of literals. -/
def localData (types : List XlateType) (t : XlateType) (k : ConstantContent) :
    Option SpvConst :=
  let lanes := t.op.getD 0 0
  let elem := t.op.getD 1 0
  if t.kind = .vector ∧ 2 ≤ t.op.length ∧ elem < types.length ∧ lanes ≤ k.payload.u32s.length ∧
      lanes ≤ 16 then
    some (.composite (.air k.typeIndex)
      ((k.payload.u32s.take lanes).map fun x => .scalar (.air elem) [x]))
  else none

/-- The type of a component that has no value. -/
def fallbackType (t : XlateType) : ConstType :=
  let elem := if (t.kind = .vector ∨ t.kind = .array) ∧ 2 ≤ t.op.length then t.op.getD 1 0 else 0
  if elem ≠ 0 then .air elem else .int 32

def localAggregate (types : List XlateType) (s : BoundValues) (t : XlateType)
    (k : ConstantContent) : Option SpvConst :=
  let comps := k.payload.u32s
  if comps = [] ∨ 16 < comps.length then none
  else some (.composite (.air k.typeIndex)
    (comps.map fun id => (s.spv id).getD (emitUndef types (fallbackType t))))

def localConstant (types : List XlateType) (s : BoundValues) (k : ConstantContent) :
    ConstBinding :=
  match types[k.typeIndex]? with
  | none => {}
  | some t => match k.kind with
    | .integer => if t.kind = .integer then localInteger (t.op.getD 0 32) k.payload else {}
    | .float =>
      if t.kind = .float then { spv := some (.scalar .float32 [u32 k.payload.raw]) }
      else if t.kind = .half then { spv := some (.scalar .half [u32 k.payload.raw%2^16]) }
      else {}
    | .null =>
      if airTypeRequiresExtraCap types k.typeIndex = true then {}
      else
        { spv := some (.null (.air k.typeIndex))
          lit := if t.kind = .integer then some 0 else none }
    | .undef | .unknown =>
      if airTypeRequiresExtraCap types k.typeIndex = true then {}
      else { spv := some (emitUndef types (.air k.typeIndex)) }
    | .data => { spv := localData types t k }
    | .aggregate => { spv := localAggregate types s t k }
    | .string => {}

/- The loops. -/

/-- Consecutive value ids are bound; a binding may look at those before it. -/
def bindConstants {α : Type} (f : BoundValues → α → ConstBinding) :
    Nat → List α → BoundValues → BoundValues
  | _, [], s => s
  | vid, k::ks, s => bindConstants f (vid+1) ks (s.bind vid (f s k))

/-- What the entry records for the helpers. -/
def recordedConstants (types : List XlateType) (ks : List ConstantContent) : List ConstBinding :=
  ks.map (moduleConstant types)

/-- Helpers take the recorded bindings. -/
def bindModuleConstants (types : List XlateType) (recorded : Option (List ConstBinding))
    (base : Nat) (ks : List ConstantContent) (s : BoundValues) : BoundValues :=
  match recorded with
  | some bs => bindConstants (fun _ b => b) base (bs.take ks.length) s
  | none => bindConstants (fun _ k => moduleConstant types k) base ks s

def bindLocalConstants (types : List XlateType) (base : Nat) (ks : List ConstantContent)
    (s : BoundValues) : BoundValues :=
  bindConstants (localConstant types) base ks s

/- What the records denote. -/

inductive Scalar where
  | int (width : Nat)
  | float (width : Nat)
deriving DecidableEq, Repr

def Scalar.width : Scalar → Nat
  | .int width => width
  | .float width => width

/-- The scalar of LLVM. -/
def XlateType.scalar (t : XlateType) : Option Scalar :=
  match t.kind with
  | .integer => some (.int (t.op.getD 0 32))
  | .float => some (.float 32)
  | .half => some (.float 16)
  | .double => some (.float 64)
  | _ => none

/-- The scalar that is declared; booleans have no literals, and what has no case is an int. -/
def declaredScalar (t : XlateType) : Option Scalar :=
  match t.kind with
  | .integer => if t.op.getD 0 32 = 1 then none else some (.int (t.op.getD 0 32))
  | .float => some (.float 32)
  | .half => some (.float 16)
  | .void | .vector | .pointer | .array | .structAnon | .structNamed => none
  | _ => some (.int 32)

def ConstType.scalar (types : List XlateType) : ConstType → Option Scalar
  | .float32 => some (.float 32)
  | .half => some (.float 16)
  | .int width => if width = 1 then none else some (.int width)
  | .air idx =>
    if idx = airTypeBool then none
    else match types[idx]? with
      | none => some (.int 32)
      | some t => declaredScalar t

/-- The function that declares a scalar. -/
def Scalar.emitType (s : TypeEmitter) : Scalar → Nat × TypeEmitter
  | .int width => s.emitTypeIntW width 0
  | .float width => if width = 16 then s.emitTypeHalf else s.emitTypeFloat32

/-- `emit_air_type` declares that scalar, when the index has no type yet. -/
theorem emitAirType_scalar {types : List XlateType} {idx : Nat} {sc : Scalar}
    (h : (ConstType.air idx).scalar types = some sc) (fuel : Nat) {s : TypeEmitter}
    (hnew : s.spvTypeIds idx = 0) :
    (emitAirType types (fuel+1) idx s).map Prod.fst = some (sc.emitType s).1 := by
  rw [emitAirType]
  rw [ConstType.scalar] at h
  split_ifs at h with hbool
  rw [if_neg hbool]
  cases hty : types[idx]? with
  | none =>
    rw [hty] at h
    cases h
    rfl
  | some t =>
    rw [hty] at h
    have hzero : ¬s.spvTypeIds idx ≠ 0 := not_not.2 hnew
    simp only [if_neg hzero, Option.map_map]
    cases hkind : t.kind <;> simp only [declaredScalar, hkind] at h ⊢
    case integer =>
      split_ifs at h
      cases h
      rfl
    case void | vector | pointer | array | structAnon | structNamed => cases h
    all_goals
      cases h
      rfl

/-- The words of a literal, the low ones first. -/
def literalBits : List Nat → Nat
  | [] => 0
  | w::ws => w+2^32*literalBits ws

/-- The type and the bits of a literal that is as long as its type and has no bits beyond it. -/
def SpvConst.value (types : List XlateType) : SpvConst → Option (Scalar × Nat)
  | .scalar ty words => (ty.scalar types).bind fun sc =>
    if words.length = (sc.width+31)/32 ∧ literalBits words < 2^sc.width then
      some (sc, literalBits words)
    else none
  | _ => none

/-- The number of components of an aggregate. -/
def XlateType.elements (t : XlateType) : Option Nat :=
  match t.kind with
  | .vector | .array => t.op.head?
  | .structAnon | .structNamed => some (t.op.length-1)
  | _ => none

/-- The constant is the one that the record stands for, with the type at `ty`; components are
what their value ids are bound to. Code 26 is poison, for which any value will do. -/
def StandsFor (types : List XlateType) (s : BoundValues) (ty : Nat) (r : BsRecord)
    (c : SpvConst) : Prop :=
  ∃ t, types[ty]? = some t ∧ match constantKind r.code with
    | .integer => ∃ w raw, t.scalar = some (.int w) ∧ r.ops.head? = some raw ∧
      c.value types = some (.int w, (signRotated raw%2^w).toNat)
    | .float => ∃ w x, t.scalar = some (.float w) ∧ r.ops.head? = some x ∧ x < 2^w ∧
      c.value types = some (.float w, x)
    | .null => c = .null (.air ty)
    | .undef => c = .undef (.air ty)
    | .data => t.kind = .vector ∧ t.elements = some r.ops.length ∧
      ∃ lane parts, types[t.op.getD 1 0]? = some lane ∧ c = .composite (.air ty) parts ∧
        List.Forall₂ (fun part x => ∃ sc, lane.scalar = some sc ∧ x < 2^sc.width ∧
          part.value types = some (sc, x)) parts r.ops
    | .aggregate => t.elements = some r.ops.length ∧
      ∃ parts, c = .composite (.air ty) parts ∧
        List.Forall₂ (fun part id => s.spv (u32 id) = some part) parts r.ops
    | .string => False
    | .unknown => r.code = 26 ∧ c = .undef (.air ty)

/-- The record at place `i` of a block, bound by either switch from what its reader stored:
neither constant is a wrong one, and two are the same with the same literal. -/
def BoundRight (types : List XlateType) (rs : List (Nat × BsRecord)) (recorded : Bool)
    (moduleBase localBase : Nat) (s₀ s₁ : BoundValues) (i : Nat) (p : Nat × BsRecord) : Prop :=
  let ks := rs.map (constantKept true)
  let m := bindModuleConstants types
    (if recorded = true then some (recordedConstants types ks) else none) moduleBase ks s₀
  let l := bindLocalConstants types localBase (rs.map (constantKept false)) s₁
  (∀ c, m.spv (moduleBase+i) = some c → StandsFor types m (u32 p.1) p.2 c) ∧
  (∀ c, l.spv (localBase+i) = some c → StandsFor types l (u32 p.1) p.2 c) ∧
  ∀ c c', m.spv (moduleBase+i) = some c → l.spv (localBase+i) = some c' →
    c = c' ∧ m.lit (moduleBase+i) = l.lit (localBase+i)

/- When it is bound, and when rightly. -/

def IntegerBinds (t : XlateType) : Prop := t.kind = .integer ∧ t.op.getD 0 32 ∈ boundWidths

/-- There is an operand, and no least integer of 64 bits. -/
def IntegerFits (t : XlateType) (r : BsRecord) : Prop :=
  ∃ raw, r.ops.head? = some raw ∧ ¬(t.op.getD 0 32 = 64 ∧ raw = 1)

def ModuleBinds (types : List XlateType) (ty : Nat) (r : BsRecord) : Prop :=
  match constantKind r.code with
  | .integer => ∃ t, types[ty]? = some t ∧ IntegerBinds t
  | .float => True
  | .null => ty < types.length ∧ airTypeRequiresExtraCap types ty = false
  | _ => False

/-- Of the floats, only zero. -/
def ModuleFits (types : List XlateType) (ty : Nat) (r : BsRecord) : Prop :=
  match constantKind r.code with
  | .integer => ∃ t, types[ty]? = some t ∧ IntegerFits t r
  | .float => ∃ t, types[ty]? = some t ∧ t.kind = .float ∧ r.ops.head? = some 0
  | _ => True

def LocalBinds (types : List XlateType) (p : Nat × BsRecord) : Prop :=
  ∃ t, types[u32 p.1]? = some t ∧ match constantKind p.2.code with
    | .integer => IntegerBinds t
    | .float => t.kind = .float ∨ t.kind = .half
    | .data => t.kind = .vector ∧ 2 ≤ t.op.length ∧ t.op.getD 1 0 < types.length ∧
      t.op.getD 0 0 ≤ p.2.ops.length ∧ t.op.getD 0 0 ≤ 16
    | .aggregate => p.2.ops ≠ [] ∧ p.2.ops.length ≤ 16
    | _ => airTypeRequiresExtraCap types (u32 p.1) = false

/-- The lane has one word and a type that is declared as such. -/
def LaneFits (types : List XlateType) (elem x : Nat) : Prop :=
  ∃ lane sc, types[elem]? = some lane ∧ lane.scalar = some sc ∧ x < 2^sc.width ∧
    (ConstType.air elem).scalar types = some sc ∧ 1 ≤ sc.width ∧ sc.width ≤ 32

/-- A record that comes to an OpUndef of the type. -/
def BindsUndef (types : List XlateType) (q : Nat × BsRecord) (c : SpvConst) : Prop :=
  (constantKind q.2.code = .undef ∨ kindKept false q.2.code = .unknown) ∧ LocalBinds types q ∧
    emitUndef types (.air (u32 q.1)) = c

/-- The value id has its constant when place `i` is bound: it is of another block, or of an
earlier place; or it is of a later one, for the very OpUndef that stands in for it. -/
def ComponentFits (types : List XlateType) (rs : List (Nat × BsRecord)) (base : Nat)
    (s : BoundValues) (i : Nat) (t : XlateType) (id : Nat) : Prop :=
  ((id < base ∨ base+rs.length ≤ id) ∧ (s.spv id).isSome = true) ∨
  ∃ j q, id = base+j ∧ rs[j]? = some q ∧
    (j < i ∧ LocalBinds types q ∨ i < j ∧ BindsUndef types q (emitUndef types (fallbackType t)))

/-- What a local constant needs, with the condition on the value ids of components. -/
def LocalFits (types : List XlateType) (component : XlateType → Nat → Prop)
    (p : Nat × BsRecord) : Prop :=
  ∃ t, types[u32 p.1]? = some t ∧ match constantKind p.2.code with
    | .integer => IntegerFits t p.2
    | .float => ∃ sc x, t.scalar = some sc ∧ p.2.ops.head? = some x ∧ x < 2^sc.width
    | .null => True
    | .undef => t.kind ≠ .void
    | .data => p.2.ops.length = t.op.getD 0 0 ∧ ∀ x ∈ p.2.ops, LaneFits types (t.op.getD 1 0) x
    | .aggregate => t.elements = some p.2.ops.length ∧ ∀ id ∈ p.2.ops, component t (u32 id)
    | .string | .unknown => p.2.code = 26 ∧ t.kind ≠ .void

/- Bindings. -/

section
variable {α : Type} {f : BoundValues → α → ConstBinding}

/-- A value id is bound to this; nothing is when it was free and is left free. -/
def BoundValues.At (s : BoundValues) (vid : Nat) (b : ConstBinding) : Prop :=
  s.spv vid = b.spv ∧ s.lit vid = b.lit

theorem bind_self {s : BoundValues} {vid : Nat} (hfree : s.At vid {}) (b : ConstBinding) :
    (s.bind vid b).At vid b := by
  obtain ⟨spv, lit⟩ := b
  obtain ⟨hspv, hlit⟩ := hfree
  constructor
  · cases spv with
    | none => exact hspv
    | some c => exact Function.update_self ..
  · cases lit with
    | none => exact hlit
    | some v => exact Function.update_self ..

theorem bind_of_ne (s : BoundValues) {vid id : Nat} (h : id ≠ vid) (b : ConstBinding) :
    (s.bind vid b).At id ⟨s.spv id, s.lit id⟩ := by
  simp only [BoundValues.bind, BoundValues.At]
  constructor
  · split_ifs
    · exact Function.update_of_ne h ..
    · rfl
  · split_ifs
    · exact Function.update_of_ne h ..
    · rfl

theorem bindConstants_outside (ks : List α) (vid : Nat) (s : BoundValues) (id : Nat)
    (h : id < vid ∨ vid+ks.length ≤ id) :
    (bindConstants f vid ks s).At id ⟨s.spv id, s.lit id⟩ := by
  induction ks generalizing vid s with
  | nil => exact ⟨rfl, rfl⟩
  | cons k ks ih =>
    rw [List.length_cons] at h
    obtain ⟨hspv, hlit⟩ := ih (vid+1) (s.bind vid (f s k)) (by omega)
    obtain ⟨hspv', hlit'⟩ := bind_of_ne s (by omega : id ≠ vid) (f s k)
    exact ⟨hspv.trans hspv', hlit.trans hlit'⟩

/-- A place is bound to what the switch makes of it behind the places before it. -/
theorem bindConstants_at {ks : List α} {vid : Nat} {s : BoundValues} {i : Nat} {k : α}
    (hk : ks[i]? = some k) (hfree : s.At (vid+i) {}) :
    (bindConstants f vid ks s).At (vid+i) (f (bindConstants f vid (ks.take i) s) k) := by
  induction ks generalizing vid s i with
  | nil => cases hk
  | cons k' ks ih =>
    cases i with
    | zero =>
      cases hk
      have hself := bind_self hfree (f s k)
      have hrest := bindConstants_outside (f := f) ks (vid+1) (s.bind vid (f s k)) vid
        (Or.inl (Nat.lt_succ_self vid))
      exact ⟨hrest.1.trans hself.1, hrest.2.trans hself.2⟩
    | succ i =>
      have hne := bind_of_ne s (by omega : vid+(i+1) ≠ vid) (f s k')
      have hfree' : (s.bind vid (f s k')).At (vid+1+i) {} := by
        rw [Nat.add_right_comm]
        exact ⟨hne.1.trans hfree.1, hne.2.trans hfree.2⟩
      have hi := ih hk hfree'
      rw [Nat.add_right_comm] at hi
      exact hi

/-- Later places leave it. -/
theorem bindConstants_take {ks : List α} {vid : Nat} {s : BoundValues} {i j : Nat} (hj : j < i)
    (hlt : j < ks.length) (hfree : s.At (vid+j) {}) :
    (bindConstants f vid (ks.take i) s).spv (vid+j) = (bindConstants f vid ks s).spv (vid+j) := by
  have hk := List.getElem?_eq_getElem hlt
  have htake : (ks.take i)[j]? = some ks[j] := by rw [List.getElem?_take_of_lt hj, hk]
  rw [(bindConstants_at hk hfree).1, (bindConstants_at htake hfree).1, List.take_take,
    Nat.min_eq_left hj.le]

end

section
variable {types : List XlateType}

/-- The helpers bind what the entry bound. -/
theorem bindModuleConstants_recorded (base : Nat) (ks : List ConstantContent) (s : BoundValues) :
    bindModuleConstants types (some (recordedConstants types ks)) base ks s =
      bindModuleConstants types none base ks s := by
  have hmap : ∀ (ks : List ConstantContent) base s,
      bindConstants (fun _ b => b) base (recordedConstants types ks) s =
        bindConstants (fun _ k => moduleConstant types k) base ks s := by
    intro ks
    induction ks with
    | nil => exact fun _ _ => rfl
    | cons k ks ih => exact fun base s => ih (base+1) _
  rw [bindModuleConstants, List.take_of_length_le (by rw [recordedConstants, List.length_map])]
  exact hmap ks base s

/- Integers. -/

/-- The two copies of the case INTEGER come to the same. -/
theorem moduleInteger_eq (w : Nat) (p : ConstantPayload) :
    moduleInteger w p = localInteger w p := by
  by_cases h8 : w = 8 ∨ w = 16
  · simp only [moduleInteger, localInteger, if_pos h8]
  by_cases h32 : w = 32
  · simp only [moduleInteger, localInteger, if_neg h8, if_pos h32]
  by_cases h64 : w = 64
  · subst h64
    simp only [moduleInteger, localInteger, if_neg h8, if_neg h32, if_true, true_and]
  · simp only [moduleInteger, localInteger, if_neg h8, if_neg h32, h64, false_and, if_false]

theorem localInteger_none {w : Nat} (h : w ∉ boundWidths) (p : ConstantPayload) :
    (localInteger w p).spv = none := by
  simp only [boundWidths, List.mem_cons, List.not_mem_nil, or_false, not_or] at h
  simp only [localInteger, h, false_or, if_false]

theorem value_scalar {ty : ConstType} {sc : Scalar} {words : List Nat}
    (hty : ty.scalar types = some sc) (hlen : words.length = (sc.width+31)/32)
    (hlt : literalBits words < 2^sc.width) :
    (SpvConst.scalar ty words).value types = some (sc, literalBits words) := by
  rw [SpvConst.value, hty]
  exact if_pos ⟨hlen, hlt⟩

theorem raw_lt (p : ConstantPayload) : p.raw < 2^64 := by
  cases p with
  | i64 v =>
    simp only [ConstantPayload.raw]
    omega
  | f64 bits => exact Nat.mod_lt _ (by decide)
  | _ => exact Nat.two_pow_pos 64

theorem localInteger_value (types : List XlateType) {w : Nat} (h : w ∈ boundWidths)
    (p : ConstantPayload) :
    ∃ c, (localInteger w p).spv = some c ∧ c.value types = some (.int w, p.raw%2^w) := by
  simp only [boundWidths, List.mem_cons, List.not_mem_nil, or_false] at h
  have hlt := raw_lt p
  -- the literal is below the bound of its type, being a remainder
  have hvalue : ∀ {ty : ConstType} {words : List Nat} {w : Nat}, ty.scalar types = some (.int w) →
      words.length = (w+31)/32 → p.raw%2^w = literalBits words →
      (SpvConst.scalar ty words).value types = some (.int w, p.raw%2^w) := by
    intro ty words w hty hlen hbits
    rw [hbits]
    exact value_scalar hty hlen (hbits ▸ Nat.mod_lt _ (Nat.two_pow_pos w))
  rcases h with rfl | rfl | rfl | rfl
  · refine ⟨.scalar (.int 8) [u32 p.raw%2^8], rfl, hvalue rfl rfl ?_⟩
    simp only [literalBits, u32]
    omega
  · refine ⟨.scalar (.int 16) [u32 p.raw%2^16], rfl, hvalue rfl rfl ?_⟩
    simp only [literalBits, u32]
    omega
  · exact ⟨.scalar (.int 32) [u32 p.raw], rfl, hvalue rfl rfl rfl⟩
  · refine ⟨.scalar (.int 64) [u32 p.raw, p.raw/2^32], rfl, hvalue rfl (by decide : 2 = 95/32) ?_⟩
    simp only [literalBits, u32]
    omega

/-- The integer that the reader stored, the least one of 64 bits as 0. -/
theorem integer_bits_iff {w : Nat} (h : w ∈ boundWidths) (raw : Nat) :
    (signedVbr raw%2^64).toNat%2^w = (signRotated raw%2^w).toNat ↔ ¬(w = 64 ∧ raw = 1) := by
  simp only [boundWidths, List.mem_cons, List.not_mem_nil, or_false] at h
  simp only [signRotated, signedVbr]
  rcases h with rfl | rfl | rfl | rfl
  · split_ifs <;> omega
  · split_ifs <;> omega
  · split_ifs <;> omega
  · split_ifs <;> omega

/-- The constant of an INTEGER record, when its reader found an operand. -/
theorem integer_stands_iff {ty : Nat} {r : BsRecord} {t : XlateType} (v : BoundValues)
    (hkind : constantKind r.code = .integer) (hty : types[ty]? = some t) (ht : IntegerBinds t)
    {c : SpvConst} (hc : c.value types =
      some (.int (t.op.getD 0 32), (payloadKept .integer r.ops).raw%2^(t.op.getD 0 32))) :
    StandsFor types v ty r c ↔ IntegerFits t r := by
  have hscalar : t.scalar = some (.int (t.op.getD 0 32)) := by rw [XlateType.scalar, ht.1]
  have hraw : ∀ raw, r.ops.head? = some raw →
      (payloadKept .integer r.ops).raw = (signedVbr raw%2^64).toNat := by
    intro raw hhead
    obtain ⟨rest, hops⟩ := List.head?_eq_some_iff.1 hhead
    rw [hops]
    rfl
  simp only [StandsFor, hkind, hty, Option.some.injEq, exists_eq_left', hscalar,
    Scalar.int.injEq, hc, Prod.mk.injEq]
  constructor
  · rintro ⟨w, raw, rfl, hhead, -, hbits⟩
    rw [hraw raw hhead, integer_bits_iff ht.2] at hbits
    exact ⟨raw, hhead, hbits⟩
  · rintro ⟨raw, hhead, hbits⟩
    rw [← integer_bits_iff ht.2, ← hraw raw hhead] at hbits
    exact ⟨_, raw, rfl, hhead, rfl, hbits⟩

theorem integer_right {ty : Nat} {r : BsRecord} {t : XlateType} (v : BoundValues)
    (hkind : constantKind r.code = .integer) (hty : types[ty]? = some t) :
    (∀ c, (if t.kind = .integer then localInteger (t.op.getD 0 32) (payloadKept .integer r.ops)
        else {}).spv = some c → StandsFor types v ty r c) ↔ (IntegerBinds t → IntegerFits t r) := by
  by_cases ht : IntegerBinds t
  · obtain ⟨c, hc, hvalue⟩ := localInteger_value types ht.2 (payloadKept .integer r.ops)
    simp only [if_pos ht.1, hc, Option.some.injEq, forall_eq', ht, true_imp_iff]
    exact integer_stands_iff v hkind hty ht hvalue
  · refine iff_of_true (fun c hc => ?_) (fun h => absurd h ht)
    split_ifs at hc with hint
    · rw [localInteger_none (fun hw => ht ⟨hint, hw⟩)] at hc
      cases hc

/- Floats. -/

theorem shiftNearestEven_small {m s : Nat} (h : 2*m < 2^s) : shiftNearestEven m s = 0 := by
  have hlt : m < 2^s := by omega
  rw [shiftNearestEven, Nat.mod_eq_of_lt hlt, Nat.div_eq_of_lt hlt, if_neg (by omega)]

/-- The pattern of a float is a double too small for any float but zero. -/
theorem f32BitsFromDouble_small {x : Nat} (h : x < 2^32) : f32BitsFromDouble x = 0 := by
  have hsign : x/2^63 = 0 := Nat.div_eq_of_lt (by omega)
  have hexp : x/2^52 = 0 := Nat.div_eq_of_lt (by omega)
  have hshift : ∀ k, 33 ≤ k → shiftNearestEven x k = 0 := fun k hk =>
    shiftNearestEven_small (lt_of_lt_of_le (by omega : 2*x < 2^33)
      (Nat.pow_le_pow_right (by decide) hk))
  have hm : x%2^52 = x := Nat.mod_eq_of_lt (by omega)
  have hmax : max 29 (926-max 0 1) = 925 := by decide
  simp only [f32BitsFromDouble, hsign, hexp, hm, Nat.zero_mod, if_true, hmax,
    hshift 925 (by decide)]
  rfl

theorem f32BitsFromDouble_lt (x : Nat) : f32BitsFromDouble x < 2^32 := by
  have hsign : x/2^63%2*2^31 ≤ 2^31 := by omega
  have hnan : x%2^52/2^29 ||| 2^22 < 2^23 := Nat.or_lt_two_pow (by omega) (by decide)
  simp only [f32BitsFromDouble]
  split_ifs
  · omega
  · omega
  · omega
  · omega

theorem payload_float_raw {ops : List Nat} {x : Nat} (h : ops.head? = some x) :
    (payloadKept .float ops).raw = u64 x := by
  obtain ⟨rest, rfl⟩ := List.head?_eq_some_iff.1 h
  rfl

theorem scalar_float32 {t : XlateType} (h : t.scalar = some (.float 32)) : t.kind = .float := by
  cases hkind : t.kind <;> rw [XlateType.scalar, hkind] at h <;> first | rfl | cases h

/-- A literal of one word. -/
theorem value_word {ty : ConstType} {sc : Scalar} {x : Nat} (hty : ty.scalar types = some sc)
    (hlen : 1 = (sc.width+31)/32) (hlt : x < 2^sc.width) :
    (SpvConst.scalar ty [x]).value types = some (sc, x) := value_scalar hty hlen hlt

/-- The copy of the module takes the pattern for a double. -/
theorem module_float_right {ty : Nat} {r : BsRecord} (v : BoundValues)
    (hkind : constantKind r.code = .float) :
    StandsFor types v ty r (.scalar .float32 [f32BitsFromDouble (payloadKept .float r.ops).raw]) ↔
      ∃ t, types[ty]? = some t ∧ t.kind = .float ∧ r.ops.head? = some 0 := by
  have hvalue : (SpvConst.scalar .float32 [f32BitsFromDouble (payloadKept .float r.ops).raw]).value
      types = some (.float 32, f32BitsFromDouble (payloadKept .float r.ops).raw) :=
    value_word rfl (by decide) (f32BitsFromDouble_lt _)
  simp only [StandsFor, hkind, hvalue, Option.some.injEq, Prod.mk.injEq, Scalar.float.injEq]
  refine exists_congr fun t => and_congr_right fun _ => ?_
  constructor
  · rintro ⟨w, x, hscalar, hhead, hlt, rfl, hbits⟩
    rw [payload_float_raw hhead, u64, Nat.mod_eq_of_lt (by omega), f32BitsFromDouble_small hlt]
      at hbits
    exact ⟨scalar_float32 hscalar, hbits ▸ hhead⟩
  · rintro ⟨hfloat, hhead⟩
    refine ⟨32, 0, by rw [XlateType.scalar, hfloat], hhead, by decide, rfl, ?_⟩
    rw [payload_float_raw hhead]
    exact f32BitsFromDouble_small (by decide)

theorem kindKept_true (code : Nat) : kindKept true code = constantKind code := if_neg (by simp)

theorem null_right {ty : Nat} {r : BsRecord} {t : XlateType} (v : BoundValues)
    (hkind : constantKind r.code = .null) (hty : types[ty]? = some t) {lit : Option Int}
    {c : SpvConst} (hc : (if airTypeRequiresExtraCap types ty = true then ({} : ConstBinding)
      else { spv := some (.null (.air ty)), lit := lit }).spv = some c) :
    StandsFor types v ty r c := by
  split_ifs at hc
  cases hc
  simp only [StandsFor, hkind, hty, Option.some.injEq, exists_eq_left']

theorem module_right (p : Nat × BsRecord) (v : BoundValues) :
    (∀ c, (moduleConstant types (constantKept true p)).spv = some c →
        StandsFor types v (u32 p.1) p.2 c) ↔
      (ModuleBinds types (u32 p.1) p.2 → ModuleFits types (u32 p.1) p.2) := by
  obtain ⟨ty, r⟩ := p
  simp only [moduleConstant, constantKept, kindKept_true, ModuleBinds, ModuleFits]
  cases hkind : constantKind r.code with
  | integer =>
    cases hty : types[u32 ty]? with
    | none => simp
    | some t => simpa [moduleInteger_eq] using integer_right v hkind hty
  | float =>
    simp only [Option.some.injEq, forall_eq', true_imp_iff]
    exact module_float_right v hkind
  | null =>
    cases hty : types[u32 ty]? with
    | none => simp
    | some t => exact iff_of_true (fun c hc => null_right v hkind hty hc) (fun _ => trivial)
  | _ => simp

/- The copy of a body. -/

theorem local_float_right {ty : Nat} {r : BsRecord} {t : XlateType} (v : BoundValues)
    (hkind : constantKind r.code = .float) (hty : types[ty]? = some t) {w word : Nat}
    (hscalar : t.scalar = some (.float w)) {own : ConstType}
    (hown : own.scalar types = some (.float w)) (hlen : 1 = (w+31)/32) (hlt : word < 2^w)
    (hword : ∀ x, r.ops.head? = some x → x < 2^w → word = x) :
    StandsFor types v ty r (.scalar own [word]) ↔
      ∃ sc x, t.scalar = some sc ∧ r.ops.head? = some x ∧ x < 2^sc.width := by
  have hvalue : (SpvConst.scalar own [word]).value types = some (.float w, word) :=
    value_word hown hlen hlt
  simp only [StandsFor, hkind, hty, Option.some.injEq, exists_eq_left', hscalar, hvalue,
    Prod.mk.injEq]
  constructor
  · rintro ⟨w', x, hw, hhead, hx, -⟩
    exact ⟨.float w', x, hw, hhead, hx⟩
  · rintro ⟨sc, x, rfl, hhead, hx⟩
    exact ⟨w, x, rfl, hhead, hx, rfl, hword x hhead hx⟩

theorem emitUndef_eq_iff {ty : Nat} {t : XlateType} (hty : types[ty]? = some t) :
    emitUndef types (.air ty) = .undef (.air ty) ↔ t.kind ≠ .void := by
  rw [emitUndef, hty]
  simp

theorem undef_right {ty : Nat} {r : BsRecord} {t : XlateType} (v : BoundValues)
    (hty : types[ty]? = some t) (hkept : constantKind r.code = .undef ∨
      kindKept false r.code = .unknown) {fits : Prop} (hfits : fits ↔
      (constantKind r.code = .undef ∨ r.code = 26) ∧ t.kind ≠ .void) :
    StandsFor types v ty r (emitUndef types (.air ty)) ↔ fits := by
  rw [hfits, ← emitUndef_eq_iff hty]
  simp only [StandsFor, hty, Option.some.injEq, exists_eq_left']
  cases hkind : constantKind r.code with
  | undef => simp
  | unknown => simp
  | string =>
    have hne : r.code ≠ 26 := by
      intro h
      rw [h] at hkind
      cases hkind
    simp [hne]
  | _ => simp [kindKept, hkind] at hkept

theorem lane_right {elem x : Nat} {lane : XlateType} (hlane : types[elem]? = some lane) :
    (∃ sc, lane.scalar = some sc ∧ x < 2^sc.width ∧
      (SpvConst.scalar (.air elem) [u32 x]).value types = some (sc, x)) ↔
      LaneFits types elem x := by
  simp only [LaneFits, hlane, Option.some.injEq]
  constructor
  · rintro ⟨sc, hsc, hlt, hvalue⟩
    obtain ⟨sc', hown, hsome⟩ := Option.bind_eq_some_iff.1 hvalue
    split_ifs at hsome with hok
    simp only [Option.some.injEq, Prod.mk.injEq] at hsome
    obtain ⟨rfl, -⟩ := hsome
    have hlen : 1 = (sc'.width+31)/32 := hok.1
    exact ⟨lane, sc', rfl, hsc, hlt, hown, by omega, by omega⟩
  · rintro ⟨lane', sc, rfl, hsc, hlt, hown, hpos, hle⟩
    have hword : u32 x = x :=
      Nat.mod_eq_of_lt (lt_of_lt_of_le hlt (Nat.pow_le_pow_right (by decide) hle))
    rw [hword]
    exact ⟨sc, hsc, hlt, value_word hown (by omega) hlt⟩

theorem data_right {ty : Nat} {r : BsRecord} {t : XlateType} (v : BoundValues)
    (hkind : constantKind r.code = .data) (hty : types[ty]? = some t) (hvector : t.kind = .vector)
    (hop : 2 ≤ t.op.length) (helem : t.op.getD 1 0 < types.length) :
    StandsFor types v ty r (.composite (.air ty) (((r.ops.map u32).take (t.op.getD 0 0)).map
        fun x => .scalar (.air (t.op.getD 1 0)) [x])) ↔
      r.ops.length = t.op.getD 0 0 ∧ ∀ x ∈ r.ops, LaneFits types (t.op.getD 1 0) x := by
  have hhead : t.elements = some (t.op.getD 0 0) := by
    rw [XlateType.elements, hvector]
    cases hops : t.op with
    | nil => simp [hops] at hop
    | cons n ops => rfl
  simp only [StandsFor, hkind, hty, Option.some.injEq, exists_eq_left', hvector, true_and, hhead,
    eq_comm (a := t.op.getD 0 0), SpvConst.composite.injEq]
  refine and_congr_right fun hlen => ?_
  have hlane := List.getElem?_eq_getElem helem
  rw [List.take_of_length_le (by rw [List.length_map, hlen]), List.map_map]
  simp only [hlane, Option.some.injEq, exists_and_left, exists_eq_left', List.forall₂_map_left_iff,
    List.forall₂_same]
  exact forall₂_congr fun x _ => lane_right hlane

theorem aggregate_right {ty : Nat} {r : BsRecord} {t : XlateType} (v : BoundValues)
    (hkind : constantKind r.code = .aggregate) (hty : types[ty]? = some t) (f : Nat → SpvConst) :
    StandsFor types v ty r (.composite (.air ty) ((r.ops.map u32).map f)) ↔
      t.elements = some r.ops.length ∧ ∀ id ∈ r.ops, v.spv (u32 id) = some (f (u32 id)) := by
  simp only [StandsFor, hkind, hty, Option.some.injEq, exists_eq_left', SpvConst.composite.injEq,
    true_and, List.map_map, List.forall₂_map_left_iff, List.forall₂_same, Function.comp]

/-- A component has what its value id is bound to in the end. -/
def Resolved (types : List XlateType) (s l : BoundValues) (t : XlateType) (id : Nat) : Prop :=
  l.spv id = some ((s.spv id).getD (emitUndef types (fallbackType t)))

theorem forall_bound_iff {o : Option SpvConst} {c : SpvConst} {P : SpvConst → Prop}
    {binds fits : Prop} (ho : o = some c) (hb : binds) (h : P c ↔ fits) :
    (∀ c, o = some c → P c) ↔ (binds → fits) := by
  simp only [ho, Option.some.injEq, forall_eq', hb, true_imp_iff, h]

theorem forall_unbound_iff {o : Option SpvConst} {P : SpvConst → Prop} {binds fits : Prop}
    (ho : o = none) (hb : ¬binds) : (∀ c, o = some c → P c) ↔ (binds → fits) := by
  simp only [ho, hb, reduceCtorEq, false_imp_iff, implies_true]

theorem undef_bound_iff {ty : Nat} {r : BsRecord} {t : XlateType} (v : BoundValues)
    (hty : types[ty]? = some t) (hkept : constantKind r.code = .undef ∨
      kindKept false r.code = .unknown) {fits : Prop} (hfits : fits ↔
      (constantKind r.code = .undef ∨ r.code = 26) ∧ t.kind ≠ .void) :
    (∀ c, (if airTypeRequiresExtraCap types ty = true then ({} : ConstBinding)
        else { spv := some (emitUndef types (.air ty)) }).spv = some c →
        StandsFor types v ty r c) ↔ (airTypeRequiresExtraCap types ty = false → fits) := by
  by_cases hextra : airTypeRequiresExtraCap types ty = true
  · exact forall_unbound_iff (by rw [if_pos hextra]) (by rw [hextra]; decide)
  · exact forall_bound_iff (by rw [if_neg hextra]) (Bool.eq_false_iff.2 hextra)
      (undef_right v hty hkept hfits)

theorem local_right (p : Nat × BsRecord) (s l : BoundValues) :
    (∀ c, (localConstant types s (constantKept false p)).spv = some c →
        StandsFor types l (u32 p.1) p.2 c) ↔
      (LocalBinds types p → LocalFits types (Resolved types s l) p) := by
  obtain ⟨ty, r⟩ := p
  simp only [localConstant, constantKept, LocalBinds, LocalFits]
  cases hty : types[u32 ty]? with
  | none => simp
  | some t =>
    simp only [Option.some.injEq, exists_eq_left']
    have hkept : kindKept false r.code =
        if constantKind r.code = .string then .unknown else constantKind r.code := by
      simp [kindKept]
    cases hkind : constantKind r.code <;> rw [hkind] at hkept <;>
      simp only [reduceCtorEq, if_true, if_false] at hkept <;> rw [hkept]
    case integer => simpa using integer_right l hkind hty
    case float =>
      by_cases hfloat : t.kind = .float
      · refine forall_bound_iff (by rw [if_pos hfloat]) (Or.inl hfloat)
          (local_float_right (w := 32) l hkind hty ?_ rfl rfl ?_ ?_)
        · rw [XlateType.scalar, hfloat]
        · exact Nat.mod_lt _ (by decide)
        · intro x hhead hx
          rw [payload_float_raw hhead, u32, u64]
          omega
      by_cases hhalf : t.kind = .half
      · refine forall_bound_iff (by rw [if_neg hfloat, if_pos hhalf]) (Or.inr hhalf)
          (local_float_right (w := 16) l hkind hty ?_ rfl rfl ?_ ?_)
        · rw [XlateType.scalar, hhalf]
        · exact Nat.mod_lt _ (by decide)
        · intro x hhead hx
          rw [payload_float_raw hhead, u32, u64]
          omega
      · exact forall_unbound_iff (by rw [if_neg hfloat, if_neg hhalf]) (not_or.2 ⟨hfloat, hhalf⟩)
    case null => exact iff_of_true (fun c hc => null_right l hkind hty hc) (fun _ => trivial)
    case undef => exact undef_bound_iff l hty (Or.inl hkind) (by simp [hkind])
    case unknown => exact undef_bound_iff l hty (Or.inr hkept) (by simp [hkind])
    case string => exact undef_bound_iff l hty (Or.inr hkept) (by simp [hkind])
    case data =>
      have hlen : (payloadKept .data r.ops).u32s = r.ops.map u32 := rfl
      simp only [localData, hlen, List.length_map]
      by_cases hbinds : t.kind = .vector ∧ 2 ≤ t.op.length ∧ t.op.getD 1 0 < types.length ∧
          t.op.getD 0 0 ≤ r.ops.length ∧ t.op.getD 0 0 ≤ 16
      · exact forall_bound_iff (if_pos hbinds) hbinds
          (data_right l hkind hty hbinds.1 hbinds.2.1 hbinds.2.2.1)
      · exact forall_unbound_iff (if_neg hbinds) hbinds
    case aggregate =>
      have hlen : (payloadKept .aggregate r.ops).u32s = r.ops.map u32 := rfl
      simp only [localAggregate, hlen, List.length_map, List.map_eq_nil_iff]
      by_cases hbinds : r.ops ≠ [] ∧ r.ops.length ≤ 16
      · exact forall_bound_iff (if_neg (not_or.2 ⟨hbinds.1, not_lt.2 hbinds.2⟩)) hbinds
          (aggregate_right l hkind hty _)
      · rw [← not_lt, ← not_or, not_not] at hbinds
        exact forall_unbound_iff (if_pos hbinds) fun h => hbinds.elim h.1 (not_lt.2 h.2)

theorem kindKept_false (code : Nat) : kindKept false code =
    if constantKind code = .string then .unknown else constantKind code := by
  simp [kindKept]

theorem localBinds_iff (p : Nat × BsRecord) (s : BoundValues) :
    (localConstant types s (constantKept false p)).spv.isSome = true ↔ LocalBinds types p := by
  obtain ⟨ty, r⟩ := p
  simp only [localConstant, constantKept, LocalBinds, kindKept_false]
  cases hty : types[u32 ty]? with
  | none => simp
  | some t =>
    simp only [Option.some.injEq, exists_eq_left']
    cases hkind : constantKind r.code
    case integer =>
      simp only [reduceCtorEq, if_false]
      by_cases ht : IntegerBinds t
      · obtain ⟨c, hc, -⟩ := localInteger_value types ht.2 (payloadKept .integer r.ops)
        rw [if_pos ht.1, hc]
        exact iff_of_true rfl ht
      · refine iff_of_false (fun hsome => ?_) ht
        split_ifs at hsome with hint
        · rw [localInteger_none (fun hw => ht ⟨hint, hw⟩)] at hsome
          cases hsome
        · cases hsome
    case data => simp [localData, payloadKept, ConstantPayload.u32s, -ite_not]
    case aggregate => simp [localAggregate, payloadKept, ConstantPayload.u32s]
    case float =>
      simp only [reduceCtorEq, if_false]
      split_ifs <;> simp_all
    all_goals
      simp only [reduceCtorEq, if_false, if_true]
      split_ifs <;> simp_all

/-- An OpUndef comes from no other record. -/
theorem local_undef_iff (q : Nat × BsRecord) (s : BoundValues) (ty : ConstType) :
    (localConstant types s (constantKept false q)).spv = some (.undef ty) ↔
      BindsUndef types q (.undef ty) := by
  rw [BindsUndef, ← localBinds_iff q s]
  obtain ⟨idx, r⟩ := q
  simp only [localConstant, constantKept, kindKept_false]
  cases hty : types[u32 idx]? with
  | none => simp
  | some t =>
    simp only
    cases hkind : constantKind r.code
    case integer =>
      simp only [reduceCtorEq, if_false, localInteger]
      split_ifs <;> simp
    case data =>
      simp only [reduceCtorEq, if_false, localData]
      split_ifs <;> simp
    case aggregate =>
      simp only [reduceCtorEq, if_false, localAggregate]
      split_ifs <;> simp
    all_goals
      simp only [reduceCtorEq, if_false, if_true]
      split_ifs <;> simp

theorem emitUndef_undef (types : List XlateType) (ty : ConstType) :
    ∃ ty', emitUndef types ty = .undef ty' := by
  unfold emitUndef
  split
  · split_ifs
    · exact ⟨_, rfl⟩
    · exact ⟨_, rfl⟩
  · exact ⟨_, rfl⟩

/- The block of a body. -/

/-- The values of a block before it is bound. -/
def Unbound (s : BoundValues) (base n : Nat) : Prop := ∀ j < n, s.At (base+j) {}

theorem component_iff (types : List XlateType) {rs : List (Nat × BsRecord)} {base i : Nat}
    {s : BoundValues} (hfree : Unbound s base rs.length) {p : Nat × BsRecord} (hp : rs[i]? = some p)
    (hkind : constantKind p.2.code = .aggregate) (t : XlateType) (id : Nat) :
    Resolved types (bindConstants (localConstant types) base
        ((rs.map (constantKept false)).take i) s)
      (bindLocalConstants types base (rs.map (constantKept false)) s) t id ↔
      ComponentFits types rs base s i t id := by
  obtain ⟨ty', hundef⟩ := emitUndef_undef types (fallbackType t)
  have hi : i < rs.length := (List.getElem?_eq_some_iff.1 hp).1
  rw [Resolved, ComponentFits, hundef, bindLocalConstants]
  by_cases hin : base ≤ id ∧ id < base+rs.length
  · obtain ⟨j, rfl⟩ := Nat.exists_eq_add_of_le hin.1
    have hj : j < rs.length := by omega
    have hq := List.getElem?_eq_getElem hj
    have hk : (rs.map (constantKept false))[j]? = some (constantKept false rs[j]) := by
      rw [List.getElem?_map, hq]
      rfl
    have hat := bindConstants_at (f := localConstant types) hk (hfree j hj)
    have honly : ∀ {P : Nat → Nat × BsRecord → Prop},
        (∃ j' q, base+j = base+j' ∧ rs[j']? = some q ∧ P j' q) ↔ P j rs[j] := by
      intro P
      constructor
      · rintro ⟨j', q, heq, hq', hP⟩
        obtain rfl : j = j' := Nat.add_left_cancel heq
        rwa [← Option.some.inj (hq.symm.trans hq')] at hP
      · exact fun hP => ⟨j, rs[j], rfl, hq, hP⟩
    rw [honly, or_iff_right (by omega)]
    by_cases hlt : j < i
    · rw [bindConstants_take hlt (by rw [List.length_map]; exact hj) (hfree j hj), hat.1,
        ← localBinds_iff rs[j] (bindConstants (localConstant types) base
          ((rs.map (constantKept false)).take j) s)]
      cases (localConstant types _ (constantKept false rs[j])).spv with
      | none => simp [hlt, Nat.lt_asymm hlt]
      | some c => simp [hlt]
    · -- the place comes later, or is that of the aggregate itself
      have hlen : ((rs.map (constantKept false)).take i).length = i := by
        rw [List.length_take, List.length_map]
        omega
      have hnone := (bindConstants_outside (f := localConstant types)
        ((rs.map (constantKept false)).take i) base s (base+j) (Or.inr (by omega))).1
      rw [hnone, (hfree j hj).1, hat.1, Option.getD_none, local_undef_iff]
      simp only [hlt, false_and, false_or]
      refine (and_iff_right_of_imp fun hbinds => ?_).symm
      refine lt_of_le_of_ne (not_lt.1 hlt) ?_
      rintro rfl
      rw [Option.some.inj (hq.symm.trans hp)] at hbinds
      have hbad := hbinds.1
      rw [kindKept_false, hkind] at hbad
      simp at hbad
  · have houtside : id < base ∨ base+rs.length ≤ id := by omega
    have hbefore := (bindConstants_outside (f := localConstant types)
      ((rs.map (constantKept false)).take i) base s id (by
        rw [List.length_take, List.length_map]
        omega)).1
    have hafter := (bindConstants_outside (f := localConstant types)
      (rs.map (constantKept false)) base s id (by rwa [List.length_map])).1
    have hno : ¬∃ j q, id = base+j ∧ rs[j]? = some q ∧ (j < i ∧ LocalBinds types q ∨
        i < j ∧ BindsUndef types q (.undef ty')) := by
      rintro ⟨j, q, rfl, hq, -⟩
      have hj := (List.getElem?_eq_some_iff.1 hq).1
      omega
    rw [hbefore, hafter, or_iff_left hno, and_iff_right houtside]
    cases s.spv id with
    | none => simp
    | some c => simp

/- Both copies. -/

theorem localFits_congr (types : List XlateType) {P Q : XlateType → Nat → Prop}
    (p : Nat × BsRecord)
    (h : constantKind p.2.code = .aggregate → ∀ t id, P t id ↔ Q t id) :
    LocalFits types P p ↔ LocalFits types Q p := by
  simp only [LocalFits]
  refine exists_congr fun t => and_congr_right fun _ => ?_
  cases hkind : constantKind p.2.code with
  | aggregate => simp only [h hkind]
  | _ => exact Iff.rfl

/-- Where the record is bound rightly by both copies, the bindings are the same. -/
theorem bound_alike {p : Nat × BsRecord} (s : BoundValues)
    (hm : ModuleBinds types (u32 p.1) p.2 → ModuleFits types (u32 p.1) p.2) {c : SpvConst}
    (hc : (moduleConstant types (constantKept true p)).spv = some c) :
    moduleConstant types (constantKept true p) = localConstant types s (constantKept false p) := by
  obtain ⟨ty, r⟩ := p
  simp only [moduleConstant, localConstant, constantKept, kindKept_true, kindKept_false,
    ModuleBinds, ModuleFits] at hm hc ⊢
  cases hkind : constantKind r.code <;> rw [hkind] at hm hc <;>
    simp only [reduceCtorEq, if_false] at hm hc ⊢
  case integer =>
    cases types[u32 ty]? with
    | none => rfl
    | some t => simp only [moduleInteger_eq]
  case float =>
    obtain ⟨t, hty, hfloat, hhead⟩ := hm trivial
    have hzero : f32BitsFromDouble (u64 0) = u32 0 := f32BitsFromDouble_small (by decide)
    simp only [hty, if_pos hfloat, payload_float_raw hhead, hzero]
    rfl

variable {rs : List (Nat × BsRecord)} {i : Nat} {p : Nat × BsRecord}

/-- Each constant of a block, bound by the switch of the module and by that of a body. -/
theorem constants_bound_iff (hp : rs[i]? = some p) (recorded : Bool) (moduleBase localBase : Nat)
    (s₀ s₁ : BoundValues) (hs₀ : Unbound s₀ moduleBase rs.length)
    (hs₁ : Unbound s₁ localBase rs.length) :
    BoundRight types rs recorded moduleBase localBase s₀ s₁ i p ↔
      (ModuleBinds types (u32 p.1) p.2 → ModuleFits types (u32 p.1) p.2) ∧
        (LocalBinds types p → LocalFits types (ComponentFits types rs localBase s₁ i) p) := by
  have hi : i < rs.length := (List.getElem?_eq_some_iff.1 hp).1
  have hsame : bindModuleConstants types (if recorded = true then
      some (recordedConstants types (rs.map (constantKept true))) else none) moduleBase
      (rs.map (constantKept true)) s₀ = bindConstants (fun _ k => moduleConstant types k) moduleBase
        (rs.map (constantKept true)) s₀ := by
    cases recorded with
    | false => rfl
    | true => exact bindModuleConstants_recorded moduleBase _ s₀
  have hk : ∀ strings, (rs.map (constantKept strings))[i]? = some (constantKept strings p) := by
    intro strings
    rw [List.getElem?_map, hp]
    rfl
  have hm := bindConstants_at (f := fun _ k => moduleConstant types k) (hk true) (hs₀ i hi)
  have hl := bindConstants_at (f := localConstant types) (hk false) (hs₁ i hi)
  have hcomponents := localFits_congr types p
    fun hkind t id => component_iff types hs₁ hp hkind t id
  simp only [BoundRight, hsame]
  constructor
  · intro h
    have hmodule := (module_right p _).1 fun c hc => h.1 c (hm.1.trans hc)
    have hlocal := (local_right p _ _).1 fun c hc => h.2.1 c (hl.1.trans hc)
    exact ⟨hmodule, fun hb => hcomponents.1 (hlocal hb)⟩
  · rintro ⟨hmodule, hlocal⟩
    refine ⟨fun c hc => (module_right p _).2 hmodule c (hm.1.symm.trans hc),
      fun c hc => (local_right p _ _).2 (fun hb => hcomponents.2 (hlocal hb)) c
        (hl.1.symm.trans hc), fun c c' hc hc' => ?_⟩
    have halike := fun s => bound_alike s hmodule (hm.1.symm.trans hc)
    have hspv := hm.1.trans ((congrArg ConstBinding.spv (halike _)).trans hl.1.symm)
    exact ⟨Option.some.inj (hc.symm.trans (hspv.trans hc')),
      hm.2.trans ((congrArg ConstBinding.lit (halike _)).trans hl.2.symm)⟩

end

/- The types `i32`, `float` and `<2 x i32>`. -/
def threeTypes : List XlateType := [⟨.integer, [32]⟩, ⟨.float, []⟩, ⟨.vector, [2, 0]⟩]

/- `i32 -21, <2 x i32> <i32 -21, i32 -21>`, the components by their value ids. -/
def splatRecords : List (Nat × BsRecord) := [(0, ⟨4, [43], none⟩), (2, ⟨7, [100, 100], none⟩)]

theorem splat_bound_right : BoundRight threeTypes splatRecords false 10 100 {} {} 1
    (2, ⟨7, [100, 100], none⟩) := by
  refine (constants_bound_iff rfl false 10 100 {} {} (fun _ _ => ⟨rfl, rfl⟩)
    (fun _ _ => ⟨rfl, rfl⟩)).2 ⟨fun h => h.elim, fun _ => ?_⟩
  refine ⟨⟨.vector, [2, 0]⟩, rfl, rfl, fun id hid => Or.inr ?_⟩
  obtain rfl : id = 100 := by simpa using hid
  exact ⟨0, _, rfl, rfl, Or.inl ⟨by decide, _, rfl, rfl, by decide⟩⟩

/-- `float 1.0` in a block of the module. -/
theorem float_bound_as_double :
    ¬∀ i p, [(1, (⟨6, [0x3F800000], none⟩ : BsRecord))][i]? = some p →
      BoundRight threeTypes [(1, ⟨6, [0x3F800000], none⟩)] false 10 100 {} {} i p := by
  intro h
  have hsmall : f32BitsFromDouble (u64 0x3F800000) = 0 := f32BitsFromDouble_small (by decide)
  have hright := (h 0 _ rfl).2.2 (.scalar .float32 [f32BitsFromDouble (u64 0x3F800000)])
    (.scalar .float32 [0x3F800000]) rfl rfl
  rw [hsmall] at hright
  simp at hright

end Lagfx
