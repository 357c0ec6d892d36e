import Lagfx.TypeNumbering

/-! The interface of a shader under other numbers of its types. -/
namespace Lagfx
open Bits ShaderFunction

def BytebufView.renumber (σ : Nat → Nat) (v : BytebufView) : BytebufView :=
  { v with pointeeTy := σ v.pointeeTy }

/-- Two scans at one instruction, up to the numbers of the types and the accesses. -/
structure Prescan.Matches (σ : Nat → Nat) (s s' : Prescan) : Prop where
  nextValId : s'.nextValId = s.nextValId
  argAlias : s'.argAlias = s.argAlias
  valueView : s'.valueView = s.valueView
  views : s'.views = s.views.map (BytebufView.renumber σ)

namespace ShaderFunction
variable {f : ShaderFunction} {σ : Renumbering f.table.types.length} {s s' : Prescan}

theorem isBytebuf_renumber (a : Nat) : (f.renumber σ).isBytebuf a = f.isBytebuf a := by
  rw [isBytebuf, isBytebuf, argCount_renumber]
  by_cases ha : a < f.argCount
  · have hnum : a < f.numArgs := lt_of_lt_of_le ha (min_le_left _ _)
    have hp := f.table.pointee_renumber σ (f.argAirType a)
    rw [argAirType_renumber f σ hnum]
    simp only [renumber] at hp ⊢
    rw [hp]
    cases f.table.pointee (f.argAirType a) with
    | none => rfl
    | some p => simp only [Option.map_some, Option.any_some, TypeTable.isI8_renumber]
  · rw [decide_eq_false ha, Bool.false_and, Bool.false_and]

theorem withView_renumber (h : s'.views = s.views.map (BytebufView.renumber σ)) (a ty : Nat) :
    s'.withView a (σ ty) = (s.withView a ty).map (BytebufView.renumber σ) := by
  have hfound : (∃ w ∈ s.views.map (BytebufView.renumber σ), w.arg = a ∧ w.pointeeTy = σ ty) ↔
      ∃ w ∈ s.views, w.arg = a ∧ w.pointeeTy = ty := by
    simp only [List.mem_map, exists_exists_and_eq_and, BytebufView.renumber, σ.inj]
  simp only [Prescan.withView, h, hfound, List.length_map]
  split_ifs
  · rfl
  · rw [List.map_append]
    rfl

theorem registerView_matches (h : s.Matches σ s') (a ty : Nat) :
    (s.registerView a ty).Matches σ (s'.registerView a (σ ty)) := by
  have hviews := withView_renumber h.views a ty
  have hfind : (s'.withView a (σ ty)).findIdx
      (fun w => decide (w.arg = a ∧ w.pointeeTy = σ ty)) =
      (s.withView a ty).findIdx fun w => decide (w.arg = a ∧ w.pointeeTy = ty) := by
    rw [hviews, List.findIdx_map]
    congr 1
    funext w
    simp only [Function.comp_apply, BytebufView.renumber, σ.inj]
  refine ⟨h.nextValId, h.argAlias, ?_, hviews⟩
  simp only [Prescan.registerView]
  rw [hfind, hviews, List.length_map, h.valueView, h.nextValId]

theorem markArrayed_renumber (views : List BytebufView) (k : Nat) :
    (views.map (BytebufView.renumber σ)).modify k (fun v => { v with arrayed := true }) =
      (views.modify k fun v => { v with arrayed := true }).map (BytebufView.renumber σ) := by
  induction views generalizing k with
  | nil => cases k <;> rfl
  | cons v views ih =>
    cases k with
    | zero => rfl
    | succ k => simp only [List.map_cons, List.modify_succ_cons, ih]

theorem prescanIndex_matches (h : s.Matches σ s') (ptrRel idxRel : Nat) :
    (f.prescanIndex s ptrRel idxRel).Matches σ
      ((f.renumber σ).prescanIndex s' ptrRel idxRel) := by
  rw [prescanIndex, prescanIndex]
  simp only [valueIdCapacity_renumber, instIdBase_renumber, h.nextValId, h.valueView]
  split_ifs
  · refine ⟨rfl, h.argAlias, rfl, ?_⟩
    simp only [h.views, markArrayed_renumber]
  · exact h

theorem prescanAccess_matches (h : s.Matches σ s') (ptrRel acc acc' : Nat) :
    (f.prescanAccess s ptrRel acc).Matches σ ((f.renumber σ).prescanAccess s' ptrRel acc') := by
  have hkeep : ∀ (f : ShaderFunction) (s : Prescan) (acc : Nat),
      (f.prescanAccess s ptrRel acc).nextValId = s.nextValId ∧
      (f.prescanAccess s ptrRel acc).argAlias = s.argAlias ∧
      (f.prescanAccess s ptrRel acc).valueView = s.valueView ∧
      (f.prescanAccess s ptrRel acc).views = s.views := by
    intro f s acc
    simp only [prescanAccess]
    split_ifs <;> exact ⟨rfl, rfl, rfl, rfl⟩
  obtain ⟨h1, h2, h3, h4⟩ := hkeep f s acc
  obtain ⟨h1', h2', h3', h4'⟩ := hkeep (f.renumber σ) s' acc'
  constructor
  · rw [h1, h1', h.nextValId]
  · rw [h2, h2', h.argAlias]
  · rw [h3, h3', h.valueView]
  · rw [h4, h4', h.views]

theorem prescanCast_matches (h : s.Matches σ s') (srcRel destTy castOp : Nat) :
    (f.prescanCast s srcRel destTy castOp).Matches σ
      ((f.renumber σ).prescanCast s' srcRel (σ destTy) castOp) := by
  have hp : (f.renumber σ).table.pointee (σ destTy) = (f.table.pointee destTy).map σ :=
    f.table.pointee_renumber σ destTy
  rw [prescanCast, prescanCast]
  simp only [h.nextValId, h.valueView, h.argAlias, valueIdCapacity_renumber, isBytebuf_renumber,
    hp]
  split_ifs with hkeep
  · generalize Function.update s.argAlias s.nextValId _ = al
    generalize Function.update s.valueView s.nextValId _ = vv
    have hm : ({ s with argAlias := al, valueView := vv } : Prescan).Matches σ
        { s' with nextValId := s.nextValId, argAlias := al, valueView := vv } :=
      ⟨rfl, rfl, rfl, h.views⟩
    cases f.table.pointee destTy with
    | none => exact hm
    | some p =>
      have hi : (f.renumber σ).table.isI8 (σ p) = f.table.isI8 p := f.table.isI8_renumber σ p
      simp only [Option.map_some, hi]
      split_ifs
      · exact registerView_matches hm _ p
      · exact hm
  · exact h

theorem prescanCode_matches (h : s.Matches σ s') (i : XlateInst) :
    (f.prescanCode s i).Matches σ ((f.renumber σ).prescanCode s' (i.renumber σ)) := by
  have hcode : (i.renumber σ).code = i.code := rfl
  -- an operand is a value where it is no type
  have hval : ∀ {k : Nat}, k < i.ops.length → k ∉ i.typeSlots →
      u32 ((i.renumber σ).ops.getD k 0) = u32 (i.ops.getD k 0) := fun hk hno =>
    (op_renumber i hk).trans (if_neg hno)
  have hty : ∀ {k : Nat}, k < i.ops.length → k ∈ i.typeSlots →
      u32 ((i.renumber σ).ops.getD k 0) = σ (u32 (i.ops.getD k 0)) := fun hk hmem =>
    (op_renumber i hk).trans (if_pos hmem)
  simp only [prescanCode, hcode, ops_length_renumber]
  cases hc : i.code with
  | gep | gepOld =>
    have hslots : i.typeSlots = [1] := by rw [XlateInst.typeSlots, hc]
    simp only
    split_ifs with hlen
    · rw [hval (k := 2) (by omega) (by rw [hslots]; decide),
        hval (k := 3) (by omega) (by rw [hslots]; decide)]
      exact prescanAccess_matches (prescanIndex_matches h _ _) _ _ _
    · exact h
  | load =>
    have hslots : i.typeSlots = [1] := by rw [XlateInst.typeSlots, hc]
    simp only
    split_ifs with hlen
    · rw [hval (k := 0) (by omega) (by rw [hslots]; decide)]
      exact prescanAccess_matches h _ _ _
    · exact h
  | cast =>
    have hslots : i.typeSlots = [1] := by rw [XlateInst.typeSlots, hc]
    simp only
    split_ifs with hlen
    · rw [hval (k := 0) (by omega) (by rw [hslots]; decide),
        hval (k := 2) (by omega) (by rw [hslots]; decide),
        hty (k := 1) (by omega) (by rw [hslots]; decide)]
      exact prescanCast_matches h _ _ _
    · exact h
  | _ => exact h

theorem prescanInst_matches (h : s.Matches σ s') (i : XlateInst) :
    (f.prescanInst s i).Matches σ ((f.renumber σ).prescanInst s' (i.renumber σ)) := by
  have hc := prescanCode_matches h i
  refine ⟨?_, hc.argAlias, hc.valueView, hc.views⟩
  simp only [prescanInst, produces_renumber, hc.nextValId]

theorem prescanInsts_matches (is : List XlateInst) (h : s.Matches σ s') :
    (is.foldl f.prescanInst s).Matches σ
      ((is.map (XlateInst.renumber σ)).foldl (f.renumber σ).prescanInst s') := by
  induction is generalizing s s' with
  | nil => exact h
  | cons i is ih => exact ih (prescanInst_matches h i)

/-- The scan of the body, but for the accesses. -/
theorem prescan_matches : f.prescan.Matches σ (f.renumber σ).prescan := by
  apply prescanInsts_matches
  constructor
  · exact instIdBase_renumber f σ
  · simp only [prescanStart, argCount_renumber]
    rfl
  · rfl
  · rfl

/- Only byte buffers have views. -/

def BytebufViews (f : ShaderFunction) (s : Prescan) : Prop :=
  ∀ a ∈ s.views.map BytebufView.arg, f.isBytebuf a = true

theorem markArrayed_args (views : List BytebufView) (k : Nat) :
    (views.modify k fun v => { v with arrayed := true }).map BytebufView.arg =
      views.map BytebufView.arg := by
  induction views generalizing k with
  | nil => cases k <;> rfl
  | cons v views ih =>
    cases k with
    | zero => rfl
    | succ k => simp only [List.map_cons, List.modify_succ_cons, ih]

theorem withView_bytebuf (h : BytebufViews f s) {a : Nat} (ha : f.isBytebuf a = true) (ty : Nat) :
    BytebufViews f (s.registerView a ty) := by
  intro b hb
  simp only [Prescan.registerView, Prescan.withView] at hb
  split_ifs at hb
  · exact h b hb
  · rw [List.map_append, List.mem_append, List.map_singleton, List.mem_singleton] at hb
    rcases hb with hb | rfl
    · exact h b hb
    · exact ha

theorem prescanIndex_bytebuf (h : BytebufViews f s) (ptrRel idxRel : Nat) :
    BytebufViews f (f.prescanIndex s ptrRel idxRel) := by
  rw [prescanIndex]
  split_ifs
  · intro a ha
    rw [markArrayed_args] at ha
    exact h a ha
  · exact h

theorem prescanAccess_bytebuf (h : BytebufViews f s) (ptrRel acc : Nat) :
    BytebufViews f (f.prescanAccess s ptrRel acc) := by
  rw [prescanAccess]
  split_ifs <;> exact h

theorem prescanCast_bytebuf (h : BytebufViews f s) (srcRel destTy castOp : Nat) :
    BytebufViews f (f.prescanCast s srcRel destTy castOp) := by
  rw [prescanCast]
  split_ifs
  · cases f.table.pointee destTy with
    | none => exact h
    | some p =>
      simp only
      split_ifs with hview
      · exact withView_bytebuf (s := { s with argAlias := _, valueView := _ }) h hview.2.1 p
      · exact h
  · exact h

theorem prescanInst_bytebuf (h : BytebufViews f s) (i : XlateInst) :
    BytebufViews f (f.prescanInst s i) := by
  have hcode : BytebufViews f (f.prescanCode s i) := by
    rw [prescanCode]
    cases i.code with
    | gep | gepOld =>
      simp only
      split_ifs
      · exact prescanAccess_bytebuf (prescanIndex_bytebuf h _ _) _ _
      · exact h
    | load =>
      simp only
      split_ifs
      · exact prescanAccess_bytebuf h _ _
      · exact h
    | cast =>
      simp only
      split_ifs
      · exact prescanCast_bytebuf h _ _ _
      · exact h
    | _ => exact h
  exact hcode

theorem prescan_bytebuf (f : ShaderFunction) : BytebufViews f f.prescan := by
  have hrun : ∀ (is : List XlateInst) (s : Prescan), BytebufViews f s →
      BytebufViews f (is.foldl f.prescanInst s) := by
    intro is
    induction is with
    | nil => exact fun s h => h
    | cons i is ih => exact fun s h => ih _ (prescanInst_bytebuf h i)
  exact hrun f.insts _ fun a ha => absurd ha List.not_mem_nil

end ShaderFunction

/- The interface under other numbers. -/

def BlockShape.renumber (σ : Nat → Nat) : BlockShape → BlockShape
  | .struct ty => .struct (σ ty)
  | .runtimeArray elem => .runtimeArray (σ elem)

def ArgVariable.renumber (σ : Nat → Nat) : ArgVariable → ArgVariable
  | .attribute location ty => .attribute location (σ ty)
  | .resource kind binding block => .resource kind binding (block.map (BlockShape.renumber σ))
  | v => v

def ViewVariable.renumber (σ : Nat → Nat) (v : ViewVariable) : ViewVariable :=
  ⟨v.view.renumber σ, v.binding, v.block.map (BlockShape.renumber σ)⟩

def ShaderInterface.renumber (σ : Nat → Nat) (s : ShaderInterface) : ShaderInterface where
  args := s.args.map (ArgVariable.renumber σ)
  outputs := s.outputs.map (Option.map σ)
  views := s.views.map (ViewVariable.renumber σ)
  defaultSampler := s.defaultSampler

namespace ShaderFunction
variable (f : ShaderFunction)

/-- The interface is the same under all numberings of the types. -/
def InterfaceRenumbers : Prop :=
  ∀ σ : Renumbering f.table.types.length, (f.renumber σ).interface = f.interface.renumber σ

/-- A buffer argument whose elements are no structs: `device float*`, `device float4*`. -/
def elementBuffer (a : Nat) : Bool :=
  decide (f.fragResourceKind a = some .buffer) &&
    (f.table.pointee (f.argAirType a)).any f.table.elementType

variable {f} {σ : Renumbering f.table.types.length}

theorem fragResourceKind_lt {a : Nat} {kind : ResourceKind}
    (h : f.fragResourceKind a = some kind) : a < f.numArgs := by
  by_contra ha
  rw [fragResourceKind, if_pos (not_lt.1 ha)] at h
  cases h

theorem fragResourceKind_pointee {a : Nat} {kind : ResourceKind}
    (h : f.fragResourceKind a = some kind) : ∃ p, f.table.pointee (f.argAirType a) = some p := by
  rw [fragResourceKind, if_neg (not_le.2 (fragResourceKind_lt h))] at h
  rw [TypeTable.pointee]
  split at h
  · rename_i p addrspace rest hty
    exact ⟨p, by rw [hty]⟩
  · cases h

theorem pointee_arg_renumber {a : Nat} (ha : a < f.numArgs) :
    (f.renumber σ).table.pointee ((f.renumber σ).argAirType a) =
      (f.table.pointee (f.argAirType a)).map σ := by
  rw [argAirType_renumber f σ ha]
  exact f.table.pointee_renumber σ _

theorem elementBuffer_renumber (a : Nat) :
    (f.renumber σ).elementBuffer a = f.elementBuffer a := by
  rw [elementBuffer, elementBuffer, fragResourceKind_renumber]
  by_cases hk : f.fragResourceKind a = some .buffer
  · rw [pointee_arg_renumber (fragResourceKind_lt hk), Option.any_map]
    congr 2
    funext p
    exact f.table.elementType_renumber σ p
  · rw [decide_eq_false hk, Bool.false_and, Bool.false_and]

theorem elementType_of_nonstruct {t : TypeTable} {ty : Nat}
    (h : t.bufferArgNonstructPointee ty ≠ 0) : t.elementType ty = true := by
  rw [TypeTable.bufferArgNonstructPointee] at h
  by_contra hno
  exact h (if_neg hno)

/-- An override and the pointee it replaces pass the same test. -/
theorem override_elementType {a : Nat} (h : f.argPointeeOverride a ≠ 0) :
    f.table.elementType (f.argPointeeOverride a) = true ∧
      (f.table.pointee (f.argAirType a)).any f.table.elementType = true := by
  unfold argPointeeOverride at h ⊢
  by_cases hnone : f.argCount ≤ a ∨ f.prescan.accessTy a = 0 ∨ f.prescan.mixed a = true
  · exact absurd (if_pos hnone) h
  simp only [if_neg hnone] at h ⊢
  cases hp : f.table.pointee (f.argAirType a) with
  | none =>
    rw [hp] at h
    exact absurd rfl h
  | some declared =>
    simp only [hp] at h ⊢
    by_cases hsame : f.prescan.accessTy a = declared
    · exact absurd (if_pos hsame) h
    rw [if_neg hsame] at h ⊢
    by_cases hdecl : f.table.bufferArgNonstructPointee declared = 0
    · exact absurd (if_pos hdecl) h
    rw [if_neg hdecl] at h ⊢
    by_cases hacc : f.table.bufferArgNonstructPointee (f.prescan.accessTy a) = 0
    · exact absurd (if_pos hacc) h
    rw [if_neg hacc]
    exact ⟨elementType_of_nonstruct hacc, elementType_of_nonstruct hdecl⟩

theorem elementType_handleable {t : TypeTable} {ty : Nat} (h : t.elementType ty = true)
    (hty : ty ≠ 0) : t.blockStructHandleable ty = true := by
  have hnon : t.bufferArgNonstructPointee ty = ty := by
    rw [TypeTable.bufferArgNonstructPointee, if_pos h]
  rw [TypeTable.elementType] at h
  rw [TypeTable.blockStructHandleable, hnon]
  cases hx : t.types[ty]? with
  | none =>
    rw [hx] at h
    cases h
  | some x =>
    rw [hx] at h
    have hkind := (Bool.and_eq_true_iff.1 h).1
    have hstruct : x.kind.isStruct = false := by
      revert hkind
      cases x.kind <;> decide
    simp only [hstruct, Bool.false_eq_true, if_false]
    exact decide_eq_true hty

/-- At index 0 no type but a struct is handled. -/
theorem zero_handleable {t : TypeTable} (h : t.elementType 0 = true) :
    t.blockStructHandleable 0 = false := by
  have hnon : t.bufferArgNonstructPointee 0 = 0 := by
    rw [TypeTable.bufferArgNonstructPointee, if_pos h]
  rw [TypeTable.elementType] at h
  rw [TypeTable.blockStructHandleable, hnon]
  cases hx : t.types[0]? with
  | none => rfl
  | some x =>
    rw [hx] at h
    have hkind := (Bool.and_eq_true_iff.1 h).1
    have hstruct : x.kind.isStruct = false := by
      revert hkind
      cases x.kind <;> decide
    simp only [hstruct]
    rfl

/- Arguments without elements of their own. -/

theorem bufferArgStructTy_declared {a : Nat} (h : f.elementBuffer a = false)
    (hk : f.fragResourceKind a = some .buffer) {p : Nat}
    (hp : f.table.pointee (f.argAirType a) = some p) :
    f.bufferArgStructTy a = p ∧ f.table.elementType p = false := by
  rw [elementBuffer, decide_eq_true hk, Bool.true_and, hp, Option.any_some] at h
  have hno : f.argPointeeOverride a = 0 := by
    by_contra hne
    have hany := (override_elementType hne).2
    rw [hp, Option.any_some, h] at hany
    cases hany
  refine ⟨?_, h⟩
  rw [bufferArgStructTy, hno, hp]
  simp

theorem handleable_renumber {t : TypeTable} {σ : Renumbering t.types.length} {ty : Nat}
    (h : t.elementType ty = false) :
    (t.renumber σ).blockStructHandleable (σ ty) = t.blockStructHandleable ty := by
  have h' := (t.elementType_renumber σ ty).trans h
  rw [TypeTable.blockStructHandleable, TypeTable.blockStructHandleable,
    TypeTable.bufferArgNonstructPointee, TypeTable.bufferArgNonstructPointee, h, h',
    t.getElem?_renumber]
  cases t.types[ty]? with
  | none => rfl
  | some x =>
    simp only [Option.map_some, renumber_kind]
    by_cases hs : x.kind.isStruct = true
    · rw [if_pos hs, if_pos hs, t.blockFields_renumber σ hs]
    · rw [if_neg hs, if_neg hs]
      rfl

theorem block_renumber {t : TypeTable} {σ : Renumbering t.types.length} {ty : Nat}
    (h : t.elementType ty = false) : (t.renumber σ).emitTypeStructBlock (σ ty) =
      (t.emitTypeStructBlock ty).map (BlockShape.renumber σ) := by
  have h' := (t.elementType_renumber σ ty).trans h
  rw [TypeTable.emitTypeStructBlock, TypeTable.emitTypeStructBlock,
    TypeTable.bufferArgNonstructPointee, TypeTable.bufferArgNonstructPointee, h, h',
    t.getElem?_renumber]
  cases t.types[ty]? with
  | none => rfl
  | some x =>
    simp only [Option.map_some, renumber_kind]
    by_cases hs : x.kind.isStruct = true
    · rw [if_pos hs, if_pos hs, t.blockFields_renumber σ hs]
      split_ifs <;> rfl
    · rw [if_neg hs, if_neg hs]
      rfl

theorem argVariable_renumber {a : Nat} (ha : a < f.numArgs) (h : f.elementBuffer a = false)
    (location binding : Nat) : (f.renumber σ).argVariable a location binding =
      (f.argVariable a location binding).renumber σ := by
  rw [argVariable, argVariable, vertexArgKind_renumber, fragResourceKind_renumber]
  cases f.vertexArgKind a with
  | vid => rfl
  | attr =>
    simp only [argAirType_renumber f σ ha]
    rfl
  | skip =>
    cases hk : f.fragResourceKind a with
    | none => rfl
    | some kind =>
      cases kind with
      | texture | sampler => rfl
      | buffer =>
        obtain ⟨p, hp⟩ := fragResourceKind_pointee hk
        obtain ⟨hty, helem⟩ := bufferArgStructTy_declared h hk hp
        have h' : (f.renumber σ).elementBuffer a = false := (elementBuffer_renumber a).trans h
        have hk' := (fragResourceKind_renumber f σ a).trans hk
        have hp' : (f.renumber σ).table.pointee ((f.renumber σ).argAirType a) = some (σ p) := by
          rw [pointee_arg_renumber ha, hp, Option.map_some]
        have hty' := (bufferArgStructTy_declared h' hk' hp').1
        have hhand : (f.renumber σ).table.blockStructHandleable (σ p) =
          f.table.blockStructHandleable p := handleable_renumber helem
        have hblock : (f.renumber σ).table.emitTypeStructBlock (σ p) =
          (f.table.emitTypeStructBlock p).map (BlockShape.renumber σ) := block_renumber helem
        simp only [hty, hty', hhand, hblock]
        split_ifs <;> rfl

theorem isAttribute_renumber (v : ArgVariable) : (v.renumber σ).isAttribute = v.isAttribute := by
  cases v <;> rfl

theorem isResource_renumber (v : ArgVariable) : (v.renumber σ).isResource = v.isResource := by
  cases v <;> rfl

theorem argVariables_renumber {as : List Nat} (hlt : ∀ a ∈ as, a < f.numArgs)
    (h : ∀ a ∈ as, f.elementBuffer a = false) (location binding : Nat) :
    (f.renumber σ).argVariables as location binding =
      (f.argVariables as location binding).map (ArgVariable.renumber σ) := by
  induction as generalizing location binding with
  | nil => rfl
  | cons a as ih =>
    have hv := argVariable_renumber (σ := σ) (hlt a List.mem_cons_self) (h a List.mem_cons_self)
      location binding
    have ih := ih (fun b hb => hlt b (List.mem_cons_of_mem _ hb))
      (fun b hb => h b (List.mem_cons_of_mem _ hb))
    simp only [argVariables, List.map_cons, hv, isAttribute_renumber, isResource_renumber, ih]

/-- The variable at the place of an argument is of its kind. -/
theorem argVariables_resource {as : List Nat} {i a : Nat} (hi : as[i]? = some a)
    {location binding : Nat} {kind : ResourceKind} {b : Nat} {block : Option BlockShape}
    (h : (f.argVariables as location binding)[i]? = some (.resource kind b block)) :
    f.fragResourceKind a = some kind := by
  induction as generalizing i location binding with
  | nil => cases hi
  | cons a' as ih =>
    cases i with
    | zero =>
      obtain rfl : a' = a := Option.some.inj hi
      have hv : f.argVariable a' location binding = .resource kind b block := Option.some.inj h
      rw [argVariable] at hv
      split at hv
      · cases hv
      · cases hv
      · split at hv
        · cases hv
        · rename_i hk
          split_ifs at hv
          cases hv
          exact hk
        · rename_i hk
          cases hv
          exact hk
    | succ i => exact ih hi h

theorem argVariables_getElem? (as : List Nat) (i : Nat) (location binding : Nat) :
    ∃ l b, (f.argVariables as location binding)[i]? = as[i]?.map fun a => f.argVariable a l b := by
  induction as generalizing i location binding with
  | nil => exact ⟨0, 0, rfl⟩
  | cons a as ih =>
    cases i with
    | zero => exact ⟨location, binding, rfl⟩
    | succ i => exact ih i _ _

theorem outputType_renumber (ty : Nat) :
    (f.renumber σ).outputType (σ ty) = (f.outputType ty).map σ := by
  rw [outputType, outputType, type_renumber]
  cases f.table.types[ty]? with
  | none => rfl
  | some x =>
    simp only [Option.map_some, renumber_kind]
    split_ifs <;> rfl

theorem returnAirType_renumber : (f.renumber σ).returnAirType = σ f.returnAirType := by
  have h := f.type_renumber σ f.typeIndex
  rw [returnAirType, returnAirType]
  simp only [renumber] at h ⊢
  rw [h]
  cases f.table.types[f.typeIndex]? with
  | none => exact none_renumber.symm
  | some x =>
    obtain ⟨kind, op⟩ := x
    cases kind <;> rcases op with _ | ⟨a, _ | ⟨b, op⟩⟩ <;>
      first | rfl | exact none_renumber.symm

theorem outputTypes_renumber :
    (f.renumber σ).outputTypes = f.outputTypes.map (Option.map σ) := by
  have hsingle : (if (f.renumber σ).stage = .fragment then
      [(f.renumber σ).outputType (σ f.returnAirType)] else []) =
      (if f.stage = .fragment then [f.outputType f.returnAirType] else []).map (Option.map σ) := by
    rw [outputType_renumber]
    by_cases hs : f.stage = .fragment
    · rw [if_pos hs, if_pos (show (f.renumber σ).stage = .fragment from hs)]
      rfl
    · rw [if_neg hs, if_neg (show ¬(f.renumber σ).stage = .fragment from hs)]
      rfl
  simp only [outputTypes, returnAirType_renumber, type_renumber, hsingle]
  cases f.table.types[f.returnAirType]? with
  | none => rfl
  | some x =>
    simp only [Option.map_some, renumber_kind]
    by_cases hs : x.kind.isStruct = true
    · simp only [renumber_fields σ x hs, hs, true_and, ne_eq, List.map_eq_nil_iff]
      by_cases hnil : x.op.drop 1 = []
      · rw [if_neg (not_not.2 hnil), if_neg (not_not.2 hnil)]
      · rw [if_pos hnil, if_pos hnil, ← List.map_take, List.map_map, List.map_map]
        exact List.map_congr_left fun ty _ => outputType_renumber ty
    · simp only [hs, false_and, if_false, Bool.false_eq_true]

theorem needsDefaultSampler_renumber :
    (f.renumber σ).needsDefaultSampler = f.needsDefaultSampler := by
  simp only [needsDefaultSampler, argCount_renumber, fragResourceKind_renumber]

/-- A byte buffer that is a resource has a type of elements. -/
theorem bytebuf_elementBuffer {a : Nat} (h : f.isBytebuf a = true)
    (hk : f.fragResourceKind a = some .buffer) : f.elementBuffer a = true := by
  rw [isBytebuf] at h
  rw [elementBuffer, decide_eq_true hk, Bool.true_and]
  have hi := (Bool.and_eq_true_iff.1 h).2
  obtain ⟨p, hp, hi8⟩ := Option.any_eq_true _ _ |>.1 hi
  rw [hp, Option.any_some, TypeTable.elementType]
  rw [TypeTable.isI8] at hi8
  split at hi8
  · rename_i w rest hty
    have hsize : (f.table.sizeAlign p).isSome = true := by
      rw [TypeTable.sizeAlign]
      cases hd : f.table.depth with
      | zero =>
        have hend := f.table.ends p (List.getElem?_eq_some_iff.1 hty).1
        rw [hd] at hend
        exact absurd rfl hend
      | succ d =>
        rw [airTypeSizeAlign, hty]
        rfl
    rw [hty]
    exact hsize
  · cases hi8

theorem viewVariable_renumber {args : List ArgVariable} {v : BytebufView}
    (h : ∀ b block, args[v.arg]? ≠ some (.resource .buffer b block)) :
    (f.renumber σ).viewVariable (args.map (ArgVariable.renumber σ)) (v.renumber σ) =
      (f.viewVariable args v).renumber σ := by
  have harg : (v.renumber σ).arg = v.arg := rfl
  rw [viewVariable, viewVariable, harg, List.getElem?_map]
  cases hv : args[v.arg]? with
  | none => rfl
  | some w =>
    cases w with
    | resource kind b block =>
      cases kind with
      | texture | sampler => rfl
      | buffer => exact absurd hv (h b block)
    | _ => rfl

/-- With no such buffer, the interface follows the numbers. -/
theorem interface_renumber (h : ∀ a < f.argCount, f.elementBuffer a = false) :
    (f.renumber σ).interface = f.interface.renumber σ := by
  have hargs : (f.renumber σ).argVariables (List.range (f.renumber σ).argCount) 0 0 =
      (f.argVariables (List.range f.argCount) 0 0).map (ArgVariable.renumber σ) := by
    rw [argCount_renumber]
    exact argVariables_renumber
      (fun a ha => lt_of_lt_of_le (List.mem_range.1 ha) (min_le_left _ _))
      (fun a ha => h a (List.mem_range.1 ha)) 0 0
  have hviews : ∀ v ∈ f.prescan.views, ∀ b block,
      (f.argVariables (List.range f.argCount) 0 0)[v.arg]? ≠
        some (.resource .buffer b block) := by
    intro v hv b block hres
    have hbyte := prescan_bytebuf f v.arg (List.mem_map_of_mem hv)
    have hlt : v.arg < f.argCount := of_decide_eq_true (Bool.and_eq_true_iff.1 hbyte).1
    have hk := argVariables_resource (List.getElem?_range hlt) hres
    have hno := h v.arg hlt
    rw [bytebuf_elementBuffer hbyte hk] at hno
    cases hno
  simp only [interface, ShaderInterface.renumber, hargs, outputTypes_renumber,
    needsDefaultSampler_renumber, ShaderInterface.mk.injEq, true_and]
  constructor
  · rw [prescan_matches.views, List.map_map, List.map_map]
    exact List.map_congr_left fun v hv => viewVariable_renumber (hviews v hv)
  · rw [List.countP_map]
    simp only [Function.comp_def, isResource_renumber]
    rfl

/-- The variable of an argument without Input variable is there if its Block is. -/
theorem argVariable_buffer {a : Nat} (hskip : f.vertexArgKind a = .skip)
    (hk : f.fragResourceKind a = some .buffer) (location binding : Nat) :
    (f.argVariable a location binding).isResource =
      f.table.blockStructHandleable (f.bufferArgStructTy a) := by
  rw [argVariable, hskip, hk]
  simp only
  split_ifs with hhand
  · rw [hhand]
    rfl
  · rw [Bool.not_eq_true] at hhand
    rw [hhand]
    rfl

end ShaderFunction

namespace ShaderFunction
variable {f : ShaderFunction}

theorem vertexArgKind_pointer {a : Nat} {p : Nat}
    (hp : f.table.pointee (f.argAirType a) = some p) : f.vertexArgKind a = .skip := by
  rw [TypeTable.pointee] at hp
  split at hp
  · rename_i p' rest hty
    rw [vertexArgKind, hty]
    split_ifs <;> rfl
  · cases hp

/-- An element type at index 0 loses the variable of the argument that points to it. -/
theorem argVariable_zero {a p : Nat} (hp : f.table.pointee (f.argAirType a) = some p)
    (helem : f.table.elementType p = true) (hzero : p = 0)
    (hk : f.fragResourceKind a = some .buffer) (location binding : Nat) :
    (f.argVariable a location binding).isResource = false := by
  subst hzero
  have hno : f.argPointeeOverride a = 0 := by
    have hdecl : f.table.bufferArgNonstructPointee 0 = 0 := ite_self 0
    simp only [argPointeeOverride, hp, hdecl, if_true, ite_self]
  have hty : f.bufferArgStructTy a = 0 := by
    rw [bufferArgStructTy, hno, hp]
    simp
  rw [argVariable_buffer (vertexArgKind_pointer hp) hk, hty]
  exact zero_handleable helem

/-- Elsewhere it has one, of the declared type or of the one accessed. -/
theorem argVariable_pos {a p : Nat} (hp : f.table.pointee (f.argAirType a) = some p)
    (helem : f.table.elementType p = true) (hpos : p ≠ 0)
    (hk : f.fragResourceKind a = some .buffer) (location binding : Nat) :
    (f.argVariable a location binding).isResource = true := by
  rw [argVariable_buffer (vertexArgKind_pointer hp) hk, bufferArgStructTy, hp]
  split_ifs with hov
  · exact elementType_handleable (override_elementType hov.2).1 hov.2
  · exact elementType_handleable helem hpos

theorem exists_functionType {a : Nat} (h : a < f.numArgs) :
    ∃ op, f.table.types[f.typeIndex]? = some ⟨.function, op⟩ := by
  rw [numArgs, numArgsOf] at h
  split at h
  · rename_i op hty
    exact ⟨op, hty⟩
  · exact absurd h (Nat.not_lt_zero a)

/-- Under a numbering that the interface follows, an argument has a variable if it had one. -/
theorem isResource_of_renumbers {σ : Renumbering f.table.types.length} {a : Nat}
    (ha : a < f.argCount) (h : (f.renumber σ).interface = f.interface.renumber σ) :
    ∃ location binding, ((f.renumber σ).argVariable a location binding).isResource =
      (f.interface.args[a]?).any ArgVariable.isResource := by
  obtain ⟨location, binding, hget⟩ := (f.renumber σ).argVariables_getElem?
    (List.range (f.renumber σ).argCount) a 0 0
  rw [List.getElem?_range (by rwa [argCount_renumber]), Option.map_some] at hget
  have hargs : (f.renumber σ).interface.args[a]? =
      (f.interface.args.map (ArgVariable.renumber σ))[a]? := by
    rw [h]
    rfl
  have hres : (f.renumber σ).interface.args[a]? =
      some ((f.renumber σ).argVariable a location binding) := hget
  refine ⟨location, binding, ?_⟩
  rw [hres, List.getElem?_map] at hargs
  cases hv : f.interface.args[a]? with
  | none =>
    rw [hv] at hargs
    cases hargs
  | some v =>
    rw [hv, Option.map_some] at hargs
    rw [Option.some.inj hargs, isResource_renumber, Option.any_some]

/-- A pointer to elements has its variable in one numbering and not in another. -/
theorem elementBuffer_of_renumbers (h : f.InterfaceRenumbers) {a : Nat} (ha : a < f.argCount) :
    f.elementBuffer a = false := by
  by_contra hne
  rw [Bool.not_eq_false, elementBuffer, Bool.and_eq_true, decide_eq_true_eq] at hne
  obtain ⟨hk, helem⟩ := hne
  obtain ⟨p, hp⟩ := fragResourceKind_pointee hk
  rw [hp, Option.any_some] at helem
  have hnum := fragResourceKind_lt hk
  -- the function type is another type that may have index 0
  obtain ⟨op, hfn⟩ := exists_functionType hnum
  have hplt : p < f.table.types.length := by
    by_contra hle
    rw [TypeTable.elementType, List.getElem?_eq_none (not_lt.1 hle)] at helem
    cases helem
  have hflt := (List.getElem?_eq_some_iff.1 hfn).1
  have hdiff : p ≠ f.typeIndex := by
    rintro rfl
    rw [TypeTable.elementType, hfn] at helem
    cases helem
  have hzero : 0 < f.table.types.length := by omega
  have hpσ : ∀ σ : Renumbering f.table.types.length,
      (f.renumber σ).table.pointee ((f.renumber σ).argAirType a) = some (σ p) := by
    intro σ
    rw [pointee_arg_renumber hnum, hp, Option.map_some]
  have heσ : ∀ σ : Renumbering f.table.types.length,
      (f.renumber σ).table.elementType (σ p) = true := fun σ =>
    (f.table.elementType_renumber σ p).trans helem
  have hkσ := fun σ => (fragResourceKind_renumber f σ a).trans hk
  obtain ⟨l, b, hlost⟩ := isResource_of_renumbers ha (h (Renumbering.swap hplt hzero))
  obtain ⟨l', b', hkept⟩ := isResource_of_renumbers ha (h (Renumbering.swap hflt hzero))
  have hpos : Renumbering.swap hflt hzero p ≠ 0 := by
    intro hz
    have hf0 : Renumbering.swap hflt hzero f.typeIndex = 0 := Equiv.swap_apply_left ..
    exact hdiff ((Renumbering.swap hflt hzero).inj.1 (hz.trans hf0.symm))
  rw [argVariable_zero (hpσ _) (heσ _) (Equiv.swap_apply_left ..) (hkσ _)] at hlost
  rw [argVariable_pos (hpσ _) (heσ _) hpos (hkσ _), ← hlost] at hkept
  cases hkept

/-- The interface is independent of the numbers of the types exactly when no buffer argument
points to elements that are no structs. -/
theorem interface_renumbers_iff (f : ShaderFunction) :
    f.InterfaceRenumbers ↔ ∀ a < f.argCount, f.elementBuffer a = false :=
  ⟨fun h _ ha => elementBuffer_of_renumbers h ha, fun h _ => interface_renumber h⟩

end ShaderFunction

/-- `fragment float4 f(device float *p)`, whose module has `float` at index 0. -/
def floatBufferFunction : ShaderFunction where
  table := {
    types := [⟨.float, []⟩, ⟨.pointer, [0, 1]⟩, ⟨.vector, [4, 0]⟩, ⟨.function, [0, 2, 1]⟩]
    structName := fun _ => none
    depth := 2
    complete := by decide
    ends := by decide
    fits := by decide }
  stage := .fragment
  typeIndex := 3
  insts := [⟨.load, 20, [1, 0, 4, 0]⟩, ⟨.ret, 10, []⟩]
  argIdBase := 1
  localConstCount := 0

/-- With `float` at index 0 the argument has no variable, with the function type there it
has. -/
theorem float_buffer_renumbered : ¬floatBufferFunction.InterfaceRenumbers := by
  intro h
  have hswap := congrArg ShaderInterface.args (h (Renumbering.swap (a := 0) (b := 3) (by decide)
    (by decide)))
  revert hswap
  decide

end Lagfx
