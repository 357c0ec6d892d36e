import Lagfx.Lib.Renumber
import Lagfx.ShaderInterface

/-! A function in a module whose types have other numbers: what the translator reads of its
types, arguments and instructions. -/
namespace Lagfx
open Bits ShaderFunction

/-- A type under other numbers: its references follow. -/
def XlateType.renumber (σ : Nat → Nat) : XlateType → XlateType
  | ⟨.pointer, p::rest⟩ => ⟨.pointer, σ p::rest⟩
  | ⟨.vector, lanes::elem::rest⟩ => ⟨.vector, lanes::σ elem::rest⟩
  | ⟨.array, len::elem::rest⟩ => ⟨.array, len::σ elem::rest⟩
  | ⟨.structAnon, packed::fields⟩ => ⟨.structAnon, packed::fields.map σ⟩
  | ⟨.structNamed, packed::fields⟩ => ⟨.structNamed, packed::fields.map σ⟩
  | ⟨.function, vararg::tys⟩ => ⟨.function, vararg::tys.map σ⟩
  | t => t

/-- The operands that are types. -/
def XlateInst.typeSlots (i : XlateInst) : List Nat :=
  match i.code with
  | .alloca => [0, 1]
  | .cast | .gep | .gepOld | .load => [1]
  | .phi | .switch => [0]
  | .call =>
    let ccinfo := u32 (i.ops.getD 1 0)
    if ccinfo.testBit 15 = true then [2 + if ccinfo.testBit 17 = true then 1 else 0] else []
  | _ => []

def XlateInst.renumber (σ : Nat → Nat) (i : XlateInst) : XlateInst :=
  { i with ops := i.ops.mapIdx fun k x => if k ∈ i.typeSlots then σ (u32 x) else x }

section
variable (σ : Nat → Nat) (x : XlateType)

@[simp] theorem renumber_kind : (x.renumber σ).kind = x.kind := by
  unfold XlateType.renumber
  split <;> rfl

@[simp] theorem renumber_length : (x.renumber σ).op.length = x.op.length := by
  unfold XlateType.renumber
  split <;> simp

theorem renumber_fields (h : x.kind.isStruct = true) :
    (x.renumber σ).op.drop 1 = (x.op.drop 1).map σ := by
  obtain ⟨kind, op⟩ := x
  cases op with
  | nil => cases kind <;> simp_all [AirTypeKind.isStruct, XlateType.renumber]
  | cons a op => cases kind <;> simp_all [AirTypeKind.isStruct, XlateType.renumber]

theorem renumber_elem (h : x.kind = .vector ∨ x.kind = .array) (hlen : 2 ≤ x.op.length) :
    (x.renumber σ).op.getD 1 0 = σ (x.op.getD 1 0) := by
  obtain ⟨kind, op⟩ := x
  match op, hlen with
  | a::e::op, _ => rcases h with rfl | rfl <;> rfl

/-- The first operand of a type that is no pointer is a number. -/
theorem renumber_head (h : x.kind ≠ .pointer) (d : Nat) :
    (x.renumber σ).op.getD 0 d = x.op.getD 0 d := by
  unfold XlateType.renumber
  split <;> first | rfl | exact absurd rfl h

end

/- Types and layouts. -/

section
variable {types : List XlateType} (σ : Renumbering types.length)

/-- The layout of a type does not depend on the numbers. -/
theorem airTypeSizeAlign_renumber
    (hc : ∀ t ∈ types, t.kind = .vector ∨ t.kind = .array → 2 ≤ t.op.length) (fuel ty : Nat) :
    airTypeSizeAlign (σ.table (XlateType.renumber σ)) fuel (σ ty) =
      airTypeSizeAlign types fuel ty := by
  induction fuel generalizing ty with
  | zero => rfl
  | succ fuel ih =>
    rw [airTypeSizeAlign, airTypeSizeAlign, σ.table_getElem?]
    cases hx : types[ty]? with
    | none => rfl
    | some x =>
      have hmem := List.mem_of_getElem? hx
      simp only [Option.map_some, renumber_kind]
      cases hkind : x.kind with
      | integer => simp only [renumber_head σ x (by rw [hkind]; decide)]
      | vector =>
        have he := renumber_elem σ x (.inl hkind) (hc x hmem (.inl hkind))
        simp only [renumber_head σ x (by rw [hkind]; decide), he, ih]
      | array =>
        have he := renumber_elem σ x (.inr hkind) (hc x hmem (.inr hkind))
        simp only [renumber_head σ x (by rw [hkind]; decide), he, ih]
      | structAnon | structNamed =>
        have hf := renumber_fields σ x (by rw [hkind]; rfl)
        simp only [hf, List.foldlM_map, ih]
      | _ => rfl

end

namespace TypeTable
variable (t : TypeTable) (σ : Renumbering t.types.length)

/-- The table with its types under other numbers. -/
def renumber : TypeTable where
  types := σ.table (XlateType.renumber σ)
  structName := t.structName ∘ σ.perm.symm
  depth := t.depth
  complete x hx := by
    obtain ⟨y, hy, rfl⟩ := (σ.mem_table _).1 hx
    rw [renumber_kind, renumber_length]
    exact t.complete y hy
  ends ty hty := by
    rw [σ.table_length] at hty
    have h := airTypeSizeAlign_renumber σ t.complete t.depth (σ.perm.symm ty)
    rw [Equiv.apply_symm_apply] at h
    rw [h]
    exact t.ends _ (σ.symm_lt hty)
  fits := by
    rw [σ.table_length]
    exact t.fits

theorem getElem?_renumber (ty : Nat) :
    (t.renumber σ).types[σ ty]? = t.types[ty]?.map (XlateType.renumber σ) :=
  σ.table_getElem? _ ty

theorem structName_renumber (ty : Nat) : (t.renumber σ).structName (σ ty) = t.structName ty :=
  congrArg t.structName (Equiv.symm_apply_apply ..)

theorem sizeAlign_renumber (ty : Nat) : (t.renumber σ).sizeAlign (σ ty) = t.sizeAlign ty :=
  congrArg Option.join (airTypeSizeAlign_renumber σ t.complete t.depth ty)

theorem pointee_renumber (ty : Nat) :
    (t.renumber σ).pointee (σ ty) = (t.pointee ty).map σ := by
  rw [pointee, pointee, getElem?_renumber]
  cases t.types[ty]? with
  | none => rfl
  | some x =>
    obtain ⟨kind, op⟩ := x
    cases kind <;> rcases op with _ | ⟨a, _ | ⟨b, op⟩⟩ <;> rfl

theorem isI8_renumber (ty : Nat) : (t.renumber σ).isI8 (σ ty) = t.isI8 ty := by
  rw [isI8, isI8, getElem?_renumber]
  cases t.types[ty]? with
  | none => rfl
  | some x =>
    obtain ⟨kind, op⟩ := x
    cases kind <;> rcases op with _ | ⟨a, _ | ⟨b, op⟩⟩ <;> rfl

theorem elementType_renumber (ty : Nat) :
    (t.renumber σ).elementType (σ ty) = t.elementType ty := by
  rw [elementType, elementType, getElem?_renumber]
  cases t.types[ty]? with
  | none => rfl
  | some x => simp only [Option.map_some, renumber_kind, sizeAlign_renumber]

theorem blockFields_renumber {x : XlateType} (h : x.kind.isStruct = true) :
    (t.renumber σ).blockFields (x.renumber σ) = t.blockFields x := by
  have hall : ∀ fields : List Nat,
      (fields.map σ).all (fun f => ((t.renumber σ).sizeAlign f).isSome) =
        fields.all fun f => (t.sizeAlign f).isSome := by
    intro fields
    rw [List.all_map]
    exact congrArg (List.all fields) (funext fun f => by
      rw [Function.comp_apply, sizeAlign_renumber])
  simp only [blockFields, renumber_fields σ x h, hall, List.length_map, ne_eq, List.map_eq_nil_iff]

end TypeTable

/-- The function in a module with other type numbers. -/
def ShaderFunction.renumber (f : ShaderFunction) (σ : Renumbering f.table.types.length) :
    ShaderFunction :=
  { f with
    table := f.table.renumber σ
    typeIndex := σ f.typeIndex
    insts := f.insts.map (XlateInst.renumber σ) }

namespace ShaderFunction
variable (f : ShaderFunction) (σ : Renumbering f.table.types.length)

theorem type_renumber (ty : Nat) : (f.renumber σ).table.types[σ ty]? =
    f.table.types[ty]?.map (XlateType.renumber σ) := f.table.getElem?_renumber σ ty

@[simp] theorem numArgs_renumber : (f.renumber σ).numArgs = f.numArgs := by
  have h := f.type_renumber σ f.typeIndex
  rw [numArgs, numArgs, numArgsOf, numArgsOf]
  simp only [renumber] at h ⊢
  rw [h]
  cases f.table.types[f.typeIndex]? with
  | none => rfl
  | some x =>
    obtain ⟨kind, op⟩ := x
    cases kind <;> rcases op with _ | ⟨a, _ | ⟨b, op⟩⟩ <;> simp [XlateType.renumber]

@[simp] theorem argCount_renumber : (f.renumber σ).argCount = f.argCount := by
  rw [argCount, argCount, numArgs_renumber]

@[simp] theorem instIdBase_renumber : (f.renumber σ).instIdBase = f.instIdBase := by
  rw [instIdBase, instIdBase, numArgs_renumber]
  rfl

@[simp] theorem valueIdCapacity_renumber :
    (f.renumber σ).valueIdCapacity = f.valueIdCapacity := by
  rw [valueIdCapacity, valueIdCapacity, instIdBase_renumber]
  simp only [renumber, List.length_map]

theorem argAirType_renumber {a : Nat} (ha : a < f.numArgs) :
    (f.renumber σ).argAirType a = σ (f.argAirType a) := by
  have h := f.type_renumber σ f.typeIndex
  rw [numArgs, numArgsOf] at ha
  rw [argAirType, argAirType]
  simp only [renumber] at h ⊢
  rw [h]
  split at ha
  · rename_i op hfn
    rw [hfn]
    rcases op with _ | ⟨v, tys⟩
    · exact absurd ha (by simp)
    · simp only [Option.map_some, XlateType.renumber, List.getD_cons_succ]
      rw [List.length_cons] at ha
      have hlt : a+1 < tys.length := by omega
      rw [List.getD_eq_getElem _ _ hlt, List.getD_eq_getElem _ _ (by simpa using hlt),
        List.getElem_map]
  · exact absurd ha (Nat.not_lt_zero a)

theorem vertexArgKind_renumber (a : Nat) :
    (f.renumber σ).vertexArgKind a = f.vertexArgKind a := by
  rw [vertexArgKind, vertexArgKind, numArgs_renumber]
  by_cases ha : f.numArgs ≤ a
  · rw [if_pos ha, if_pos ha]
  · rw [if_neg ha, if_neg ha, argAirType_renumber f σ (not_le.1 ha), type_renumber]
    cases f.table.types[f.argAirType a]? with
    | none => rfl
    | some x =>
      simp only [Option.map_some, renumber_kind]
      rfl

theorem fragResourceKind_renumber (a : Nat) :
    (f.renumber σ).fragResourceKind a = f.fragResourceKind a := by
  rw [fragResourceKind, fragResourceKind, numArgs_renumber]
  split_ifs with ha
  · rfl
  · rw [argAirType_renumber f σ (not_le.1 ha), type_renumber]
    cases f.table.types[f.argAirType a]? with
    | none => rfl
    | some x =>
      obtain ⟨kind, op⟩ := x
      rcases op with _ | ⟨p, _ | ⟨addrspace, op⟩⟩
      · cases kind <;> rfl
      · cases kind <;> rfl
      · cases kind
        case pointer =>
          simp only [Option.map_some, XlateType.renumber, type_renumber]
          cases f.table.types[p]? with
          | none => rfl
          | some y =>
            have hname := f.table.structName_renumber σ p
            simp only [Option.map_some, renumber_kind, renumber] at hname ⊢
            rw [hname]
        all_goals rfl

/- Instructions. -/

section
variable {f σ}

theorem u32_renumber (x : Nat) : u32 (σ (u32 x)) = σ (u32 x) := by
  have hfits := f.table.fits
  rw [maxTypes] at hfits
  have hx : u32 x < 2^32 := Nat.mod_lt _ (by decide)
  apply Nat.mod_eq_of_lt
  by_cases ht : u32 x < f.table.types.length
  · have hlt := σ.lt_iff.2 ht
    omega
  · rwa [σ.outside _ (not_lt.1 ht)]

/-- An operand as a 32-bit word, in an instruction under other numbers. -/
theorem op_renumber (i : XlateInst) {k : Nat} (hk : k < i.ops.length) :
    u32 ((i.renumber σ).ops.getD k 0) =
      if k ∈ i.typeSlots then σ (u32 (i.ops.getD k 0)) else u32 (i.ops.getD k 0) := by
  rw [XlateInst.renumber]
  rw [List.getD_eq_getElem _ _ hk, List.getD_eq_getElem _ _ (by simpa using hk),
    List.getElem_mapIdx]
  split_ifs
  · exact u32_renumber _
  · rfl

theorem ops_length_renumber (i : XlateInst) : (i.renumber σ).ops.length = i.ops.length :=
  List.length_mapIdx

theorem none_renumber : σ airTypeNone = airTypeNone := by
  have hfits := f.table.fits
  rw [maxTypes] at hfits
  exact σ.outside _ (by rw [airTypeNone]; omega)

theorem callReturn_renumber (i : XlateInst) (hcode : i.code = .call) :
    callReturnAirType (f.renumber σ).table.types (i.renumber σ) =
      σ (callReturnAirType f.table.types i) := by
  rw [callReturnAirType, callReturnAirType, ops_length_renumber]
  by_cases hlen : i.ops.length < 3
  · rw [if_pos hlen, if_pos hlen, none_renumber]
  have hone : 1 ∉ i.typeSlots := by
    simp only [XlateInst.typeSlots, hcode]
    split_ifs <;> simp
  have hcc := op_renumber (σ := σ) i (k := 1) (by omega)
  rw [if_neg hone] at hcc
  simp only [if_neg hlen, hcc]
  by_cases hexp : (u32 (i.ops.getD 1 0)).testBit 15 = false
  · rw [if_pos hexp, if_pos hexp, none_renumber]
  rw [if_neg hexp, if_neg hexp]
  generalize hslot : 2 + (if (u32 (i.ops.getD 1 0)).testBit 17 = true then 1 else 0) = slot
  by_cases hroom : i.ops.length ≤ slot
  · rw [if_pos hroom, if_pos hroom, none_renumber]
  have hmem : slot ∈ i.typeSlots := by
    simp only [XlateInst.typeSlots, hcode, if_pos (Bool.not_eq_false _ ▸ hexp), hslot,
      List.mem_singleton]
  rw [if_neg hroom, if_neg hroom, op_renumber i (not_le.1 hroom), if_pos hmem, type_renumber]
  cases f.table.types[u32 (i.ops.getD slot 0)]? with
  | none => exact none_renumber.symm
  | some x =>
    obtain ⟨kind, op⟩ := x
    cases kind <;> rcases op with _ | ⟨a, _ | ⟨b, op⟩⟩ <;>
      first | rfl | exact none_renumber.symm

theorem isVoid_renumber (ty : Nat) : airTypeIsVoid (f.renumber σ).table.types (σ ty) =
    airTypeIsVoid f.table.types ty := by
  rw [airTypeIsVoid, airTypeIsVoid, type_renumber]
  cases f.table.types[ty]? with
  | none => rfl
  | some x => simp only [Option.map_some, renumber_kind]

theorem produces_renumber (i : XlateInst) :
    instProducesValue (f.renumber σ).table.types (i.renumber σ) =
      instProducesValue f.table.types i := by
  by_cases hcode : i.code = .call
  · have hnone : σ (callReturnAirType f.table.types i) ≠ airTypeNone ↔
        callReturnAirType f.table.types i ≠ airTypeNone := by
      rw [ne_eq, ← none_renumber (σ := σ), σ.inj, none_renumber]
    have hcall := callReturn_renumber (σ := σ) i hcode
    simp only [instProducesValue, XlateInst.renumber, hcode] at hcall ⊢
    rw [hcall, isVoid_renumber, decide_eq_decide.2 hnone]
  · have hcode' : (i.renumber σ).code ≠ .call := hcode
    rw [instProducesValue_of_ne hcode, instProducesValue_of_ne hcode']
    rfl

end
end ShaderFunction

end Lagfx
