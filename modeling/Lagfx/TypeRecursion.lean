import Lagfx.Lib.Descent
import Lagfx.TypeCaches
import Lagfx.TypeLayout

/-! The recursive functions over the type table: what they follow, and when they return. -/
namespace Lagfx
open Descent

/- The layout of nested aggregates. -/

/-- The decorations of `decorate_nested_layout`, on SPIR-V ids. -/
inductive LayoutDecoration where
  | memberOffset (struct member offset : Nat)
  | arrayStride (array stride : Nat)
deriving DecidableEq, Repr

structure LayoutEmitter where
  types : TypeEmitter := {}
  decorations : List LayoutDecoration := []

def LayoutEmitter.decorate (s : LayoutEmitter) (d : LayoutDecoration) : LayoutEmitter :=
  { s with decorations := s.decorations++[d] }

def maxVisited : Nat := 64

/-- The loop over the fields of the struct `sid`; a field without layout ends it. -/
def decorateFields (sizeAlign : Nat → Option (Option (Nat × Nat)))
    (nested : Nat → List Nat → LayoutEmitter → Option (List Nat × LayoutEmitter)) (sid : Nat) :
    List Nat → Nat → Nat → List Nat → LayoutEmitter → Option (List Nat × LayoutEmitter)
  | [], _, _, visited, s => some (visited, s)
  | field::fields, i, off, visited, s =>
    (sizeAlign field).bind fun e => match e with
      | none => some (visited, s)
      | some e =>
        let off := roundUp off e.2
        (nested field visited (s.decorate (.memberOffset sid i off))).bind fun r =>
          decorateFields sizeAlign nested sid fields (i+1) (u32 (off+e.1)) r.1 r.2

/-- `decorate_nested_layout` to a depth of `fuel`, with the list of visited types. -/
def decorateNestedLayout (types : List XlateType) :
    Nat → Nat → List Nat → LayoutEmitter → Option (List Nat × LayoutEmitter)
  | 0, _, _, _ => none
  | fuel+1, airTy, visited, s =>
    match types[airTy]? with
    | none => some (visited, s)
    | some t =>
      if airTy ∈ visited then some (visited, s)
      else
        let visited := if visited.length < maxVisited then visited++[airTy] else visited
        match t.kind with
        | .structAnon | .structNamed =>
          (emitAirType types fuel airTy s.types).bind fun sid =>
            decorateFields (airTypeSizeAlign types fuel) (decorateNestedLayout types fuel) sid.1
              (t.op.drop 1) 0 0 visited { s with types := sid.2 }
        | .array =>
          if t.op.length < 2 then some (visited, s)
          else
            let elem := t.op.getD 1 0
            (airTypeSizeAlign types fuel elem).bind fun e =>
              (match e with
                | none => some s
                | some e =>
                  (emitAirType types fuel airTy s.types).map fun (aid : Nat × TypeEmitter) =>
                    { s with types := aid.2 }.decorate (.arrayStride aid.1 (roundUp e.1 e.2))).bind
                fun s => decorateNestedLayout types fuel elem visited s
        | _ => some (visited, s)

/- What the functions follow. -/

/-- The operands whose types `emit_air_type` emits first. -/
def XlateType.emitOperands (t : XlateType) : List Nat :=
  match t.kind with
  | .vector | .array => [t.op.getD 1 0]
  | .pointer => [t.op.getD 0 0]
  | .structAnon | .structNamed => (t.op.drop 1).take maxStructFields
  | _ => []

def EmitFollows (types : List XlateType) (ty f : Nat) : Prop :=
  ty ≠ airTypeBool ∧ ∃ t, types[ty]? = some t ∧ f ∈ t.emitOperands

/-- The types with a layout: scalars, and vectors, arrays and structs of such. -/
inductive HasLayout (types : List XlateType) : Nat → Prop where
  | scalar {ty t} (hty : types[ty]? = some t)
      (hkind : t.kind = .float ∨ t.kind = .half ∨ t.kind = .double ∨ t.kind = .integer) :
      HasLayout types ty
  | element {ty t} (hty : types[ty]? = some t) (hkind : t.kind = .vector ∨ t.kind = .array)
      (helem : HasLayout types (t.op.getD 1 0)) : HasLayout types ty
  | fields {ty t} (hty : types[ty]? = some t) (hkind : t.kind.isStruct = true)
      (hfields : ∀ f ∈ t.op.drop 1, HasLayout types f) : HasLayout types ty

/-- The types that `air_type_size_align` lays out first: that of the elements, or a field
behind fields with a layout. -/
def SizeFollows (types : List XlateType) (ty f : Nat) : Prop :=
  ∃ t, types[ty]? = some t ∧
    ((t.kind = .vector ∨ t.kind = .array) ∧ f = t.op.getD 1 0 ∨
      t.kind.isStruct = true ∧ ∃ before after, t.op.drop 1 = before++f::after ∧
        ∀ b ∈ before, HasLayout types b)

/-- From every start index, in every state, the three functions return. -/
structure TypeEmissionEnds (types : List XlateType) : Prop where
  emit : ∀ idx s, Returns fun n => emitAirType types n idx s
  sizeAlign : ∀ ty, Returns fun n => airTypeSizeAlign types n ty
  decorate : ∀ ty visited s, Returns fun n => decorateNestedLayout types n ty visited s

section
variable {types : List XlateType}

/- A greater depth keeps the results. -/

theorem airTypeSizeAlign_deepens (ty : Nat) : Deepens fun n => airTypeSizeAlign types n ty := by
  intro n
  induction n generalizing ty with
  | zero => exact .none _
  | succ n ih =>
    change Within (airTypeSizeAlign types (n+1) ty) (airTypeSizeAlign types (n+1+1) ty)
    rw [airTypeSizeAlign, airTypeSizeAlign]
    cases types[ty]? with
    | none => exact .refl _
    | some t =>
      have hfield : ∀ (acc : Option (Nat × Nat)) (field : Nat), Within
          (match acc with
            | none => some none
            | some a => (airTypeSizeAlign types n field).map (Option.map (layoutField a)))
          (match acc with
            | none => some none
            | some a => (airTypeSizeAlign types (n+1) field).map (Option.map (layoutField a))) := by
        intro acc field
        cases acc with
        | none => exact .refl _
        | some a => exact (ih field).map _
      simp only
      cases t.kind with
      | vector => exact (ih _).map _
      | array => exact (ih _).map _
      | structAnon => exact (Within.foldlM hfield _ _).map _
      | structNamed => exact (Within.foldlM hfield _ _).map _
      | _ => exact .refl _

theorem emitAirType_deepens (idx : Nat) (s : TypeEmitter) :
    Deepens fun n => emitAirType types n idx s := by
  intro n
  induction n generalizing idx s with
  | zero => exact .none _
  | succ n ih =>
    change Within (emitAirType types (n+1) idx s) (emitAirType types (n+1+1) idx s)
    rw [emitAirType, emitAirType]
    by_cases hbool : idx = airTypeBool
    · rw [if_pos hbool, if_pos hbool]
      exact .refl _
    · rw [if_neg hbool, if_neg hbool]
      cases types[idx]? with
      | none => exact .refl _
      | some t =>
        by_cases hmemo : s.spvTypeIds idx ≠ 0
        · simp only [if_pos hmemo]
          exact .refl _
        · simp only [if_neg hmemo]
          refine Within.map ?_ _
          cases t.kind with
          | vector => exact (ih _ _).map _
          | array => exact (ih _ _).map _
          | pointer => exact (ih _ _).map _
          | structAnon => exact (Within.foldlM (fun s f => (ih f s).map _) _ _).map _
          | structNamed => exact (Within.foldlM (fun s f => (ih f s).map _) _ _).map _
          | _ => exact .refl _

theorem decorateFields_within {size size' : Nat → Option (Option (Nat × Nat))}
    {nested nested' : Nat → List Nat → LayoutEmitter → Option (List Nat × LayoutEmitter)}
    (hsize : ∀ f, Within (size f) (size' f))
    (hnested : ∀ f visited s, Within (nested f visited s) (nested' f visited s)) (sid : Nat)
    (fields : List Nat) (i off : Nat) (visited : List Nat) (s : LayoutEmitter) :
    Within (decorateFields size nested sid fields i off visited s)
      (decorateFields size' nested' sid fields i off visited s) := by
  induction fields generalizing i off visited s with
  | nil => exact .refl _
  | cons field fields ih =>
    refine (hsize field).bind fun e => ?_
    cases e with
    | none => exact .refl _
    | some e => exact (hnested _ _ _).bind fun r => ih _ _ _ _

theorem decorateNestedLayout_deepens (ty : Nat) (visited : List Nat) (s : LayoutEmitter) :
    Deepens fun n => decorateNestedLayout types n ty visited s := by
  intro n
  induction n generalizing ty visited s with
  | zero => exact .none _
  | succ n ih =>
    change Within (decorateNestedLayout types (n+1) ty visited s)
      (decorateNestedLayout types (n+1+1) ty visited s)
    rw [decorateNestedLayout, decorateNestedLayout]
    cases types[ty]? with
    | none => exact .refl _
    | some t =>
      have hstruct : ∀ visited : List Nat, Within
          ((emitAirType types n ty s.types).bind fun sid =>
            decorateFields (airTypeSizeAlign types n) (decorateNestedLayout types n) sid.1
              (t.op.drop 1) 0 0 visited { s with types := sid.2 })
          ((emitAirType types (n+1) ty s.types).bind fun sid =>
            decorateFields (airTypeSizeAlign types (n+1)) (decorateNestedLayout types (n+1)) sid.1
              (t.op.drop 1) 0 0 visited { s with types := sid.2 }) := fun visited =>
        (emitAirType_deepens ty s.types n).bind fun sid =>
          decorateFields_within (fun f => airTypeSizeAlign_deepens f n) ih _ _ _ _ _ _
      simp only
      by_cases hvisited : ty ∈ visited
      · rw [if_pos hvisited, if_pos hvisited]
        exact .refl _
      · rw [if_neg hvisited, if_neg hvisited]
        cases t.kind with
        | structAnon => exact hstruct _
        | structNamed => exact hstruct _
        | array =>
          by_cases hnum : t.op.length < 2
          · simp only [if_pos hnum]
            exact .refl _
          · simp only [if_neg hnum]
            refine (airTypeSizeAlign_deepens _ n).bind fun e => ?_
            cases e with
            | none => exact ih _ _ _
            | some e => exact ((emitAirType_deepens ty s.types n).map _).bind fun s => ih _ _ _
        | _ => exact .refl _

/- Layouts. -/

theorem hasLayout_iff {ty : Nat} {t : XlateType} (hty : types[ty]? = some t) :
    HasLayout types ty ↔
      (t.kind = .float ∨ t.kind = .half ∨ t.kind = .double ∨ t.kind = .integer) ∨
      (t.kind = .vector ∨ t.kind = .array) ∧ HasLayout types (t.op.getD 1 0) ∨
      t.kind.isStruct = true ∧ ∀ f ∈ t.op.drop 1, HasLayout types f := by
  constructor
  · intro h
    cases h with
    | scalar hty' hkind =>
      obtain rfl := Option.some.inj (hty.symm.trans hty')
      exact .inl hkind
    | element hty' hkind helem =>
      obtain rfl := Option.some.inj (hty.symm.trans hty')
      exact .inr (.inl ⟨hkind, helem⟩)
    | fields hty' hkind hfields =>
      obtain rfl := Option.some.inj (hty.symm.trans hty')
      exact .inr (.inr ⟨hkind, hfields⟩)
  · rintro (hkind | ⟨hkind, helem⟩ | ⟨hkind, hfields⟩)
    · exact .scalar hty hkind
    · exact .element hty hkind helem
    · exact .fields hty hkind hfields

theorem isStruct_iff {k : AirTypeKind} :
    k.isStruct = true ↔ k = .structAnon ∨ k = .structNamed := by
  cases k <;> simp [AirTypeKind.isStruct]

/-- One field of the struct case of `air_type_size_align`. -/
def sizeField (types : List XlateType) (fuel : Nat) (acc : Option (Nat × Nat)) (field : Nat) :
    Option (Option (Nat × Nat)) :=
  match acc with
  | none => some none
  | some a => (airTypeSizeAlign types fuel field).map (Option.map (layoutField a))

theorem sizeFields_none (fuel : Nat) (fields : List Nat) :
    fields.foldlM (sizeField types fuel) none = some none := by
  induction fields with
  | nil => rfl
  | cons f fields ih => exact ih

theorem airTypeSizeAlign_struct {fuel ty : Nat} {t : XlateType} (hty : types[ty]? = some t)
    (hkind : t.kind.isStruct = true) : airTypeSizeAlign types (fuel+1) ty =
      ((t.op.drop 1).foldlM (sizeField types fuel) (some (0, 1))).map
        (Option.map fun (a : Nat × Nat) => (roundUp a.1 a.2, a.2)) := by
  rw [airTypeSizeAlign, hty]
  rcases isStruct_iff.1 hkind with hk | hk
  · simp only [hk]
    rfl
  · simp only [hk]
    rfl

theorem airTypeSizeAlign_element (fuel : Nat) {ty : Nat} {t : XlateType} (hty : types[ty]? = some t)
    (hkind : t.kind = .vector ∨ t.kind = .array) : ∃ f : Nat × Nat → Nat × Nat,
      airTypeSizeAlign types (fuel+1) ty =
        (airTypeSizeAlign types fuel (t.op.getD 1 0)).map (Option.map f) := by
  rw [airTypeSizeAlign, hty]
  rcases hkind with hk | hk
  · simp only [hk]
    exact ⟨_, rfl⟩
  · simp only [hk]
    exact ⟨_, rfl⟩

theorem sizeFields_layout {fuel : Nat}
    (hsize : ∀ f o, airTypeSizeAlign types fuel f = some o → (o.isSome = true ↔ HasLayout types f))
    (fields : List Nat) (a : Nat × Nat) {o : Option (Nat × Nat)}
    (h : fields.foldlM (sizeField types fuel) (some a) = some o) :
    o.isSome = true ↔ ∀ f ∈ fields, HasLayout types f := by
  induction fields generalizing a with
  | nil =>
    cases h
    simp
  | cons f fields ih =>
    rw [List.foldlM_cons] at h
    obtain ⟨acc, hacc, h⟩ := Option.bind_eq_some_iff.1 h
    obtain ⟨e, he, rfl⟩ := Option.map_eq_some_iff.1 hacc
    rw [List.forall_mem_cons, ← hsize f e he]
    cases e with
    | none =>
      rw [Option.map_none, sizeFields_none] at h
      cases h
      simp
    | some e =>
      rw [ih _ h]
      simp

/-- What the recursion finds is a layout. -/
theorem airTypeSizeAlign_layout {fuel ty : Nat} {o : Option (Nat × Nat)}
    (h : airTypeSizeAlign types fuel ty = some o) : o.isSome = true ↔ HasLayout types ty := by
  induction fuel generalizing ty o with
  | zero => cases h
  | succ fuel ih =>
    cases hty : types[ty]? with
    | none =>
      rw [airTypeSizeAlign, hty] at h
      cases h
      refine ⟨fun hf => (by cases hf), fun hl => ?_⟩
      cases hl with
      | scalar hty' => cases hty.symm.trans hty'
      | element hty' => cases hty.symm.trans hty'
      | fields hty' => cases hty.symm.trans hty'
    | some t =>
      rw [hasLayout_iff hty]
      by_cases helem : t.kind = .vector ∨ t.kind = .array
      · obtain ⟨f, hf⟩ := airTypeSizeAlign_element fuel hty helem
        rw [hf] at h
        obtain ⟨e, he, rfl⟩ := Option.map_eq_some_iff.1 h
        rw [Option.isSome_map, ih he]
        rcases helem with hk | hk <;> simp [hk, AirTypeKind.isStruct]
      · by_cases hstruct : t.kind.isStruct = true
        · rw [airTypeSizeAlign_struct hty hstruct] at h
          obtain ⟨e, he, rfl⟩ := Option.map_eq_some_iff.1 h
          rw [Option.isSome_map, sizeFields_layout (fun f o => ih) _ _ he]
          rcases isStruct_iff.1 hstruct with hk | hk <;> simp [hk, AirTypeKind.isStruct]
        · rw [airTypeSizeAlign, hty] at h
          cases hk : t.kind <;> simp_all [AirTypeKind.isStruct] <;> cases h <;> simp

/- The walk of `air_type_size_align`. -/

/-- A field behind fields with a layout is laid out. -/
theorem sizeFields_reaches {fuel f : Nat} {after : List Nat} (before : List Nat) (a : Nat × Nat)
    (hbefore : ∀ b ∈ before, HasLayout types b)
    (h : ((before++f::after).foldlM (sizeField types fuel) (some a)).isSome = true) :
    (airTypeSizeAlign types fuel f).isSome = true := by
  induction before generalizing a with
  | nil =>
    rw [List.nil_append, List.foldlM_cons] at h
    obtain ⟨r, hr⟩ := Option.isSome_iff_exists.1 h
    obtain ⟨acc, hacc, -⟩ := Option.bind_eq_some_iff.1 hr
    obtain ⟨e, he, -⟩ := Option.map_eq_some_iff.1 hacc
    rw [he]
    rfl
  | cons b before ih =>
    rw [List.cons_append, List.foldlM_cons] at h
    obtain ⟨r, hr⟩ := Option.isSome_iff_exists.1 h
    obtain ⟨acc, hacc, hrest⟩ := Option.bind_eq_some_iff.1 hr
    obtain ⟨e, he, rfl⟩ := Option.map_eq_some_iff.1 hacc
    obtain ⟨hb, hbefore⟩ := List.forall_mem_cons.1 hbefore
    obtain ⟨e, rfl⟩ := Option.isSome_iff_exists.1 ((airTypeSizeAlign_layout he).2 hb)
    refine ih (layoutField a e) hbefore ?_
    rw [Option.map_some] at hrest
    rw [hrest]
    rfl

/-- A recursion that returns at a type returns at those that it lays out first. -/
theorem airTypeSizeAlign_follows {fuel ty f : Nat}
    (h : (airTypeSizeAlign types (fuel+1) ty).isSome = true) (hf : SizeFollows types ty f) :
    (airTypeSizeAlign types fuel f).isSome = true := by
  obtain ⟨t, hty, ⟨hkind, rfl⟩ | ⟨hkind, before, after, hsplit, hbefore⟩⟩ := hf
  · obtain ⟨g, hg⟩ := airTypeSizeAlign_element fuel hty hkind
    rwa [hg, Option.isSome_map] at h
  · rw [airTypeSizeAlign_struct hty hkind, Option.isSome_map, hsplit] at h
    exact sizeFields_reaches before (0, 1) hbefore h

/-- A recursion that returns has no endless walk below it. -/
theorem airTypeSizeAlign_acc {fuel ty : Nat} (h : (airTypeSizeAlign types fuel ty).isSome = true) :
    Acc (flip (SizeFollows types)) ty := by
  induction fuel generalizing ty with
  | zero => cases h
  | succ fuel ih => exact ⟨ty, fun f hf => ih (airTypeSizeAlign_follows h hf)⟩

theorem sizeField_deepens (acc : Option (Nat × Nat)) (f : Nat) :
    Deepens fun n => sizeField types n acc f := by
  intro n
  cases acc with
  | none => exact .refl _
  | some a => exact (airTypeSizeAlign_deepens f n).map _

/-- The fields return when those that are laid out do. -/
theorem sizeFields_returns {fields : List Nat}
    (ih : ∀ f before after, fields = before++f::after → (∀ b ∈ before, HasLayout types b) →
      Returns fun n => airTypeSizeAlign types n f) (before after : List Nat)
    (acc : Option (Nat × Nat)) (hsplit : fields = before++after)
    (hacc : acc.isSome = true → ∀ b ∈ before, HasLayout types b) :
    Returns fun n => after.foldlM (sizeField types n) acc := by
  induction after generalizing before acc with
  | nil => exact .some acc
  | cons f after ihl =>
    simp only [List.foldlM_cons]
    refine .bind (sizeField_deepens acc f)
      (fun acc n => Within.foldlM (fun s f => sizeField_deepens s f n) after acc) ?_ ?_
    · cases acc with
      | none => exact .some none
      | some a => exact (ih f before after hsplit (hacc rfl)).map _
    · intro acc' n hacc'
      refine ihl (before++[f]) acc' (by rw [hsplit, List.append_assoc]; rfl) ?_
      intro hsome b hb
      cases acc with
      | none =>
        cases hacc'
        cases hsome
      | some a =>
        obtain ⟨e, he, rfl⟩ := Option.map_eq_some_iff.1 hacc'
        rw [Option.isSome_map] at hsome
        rcases List.mem_append.1 hb with hb | hb
        · exact hacc rfl b hb
        · rw [List.mem_singleton.1 hb]
          exact (airTypeSizeAlign_layout he).1 hsome

/-- Without an endless walk below it, the recursion returns. -/
theorem airTypeSizeAlign_returns {ty : Nat} (h : Acc (flip (SizeFollows types)) ty) :
    Returns fun n => airTypeSizeAlign types n ty := by
  induction h with
  | intro ty _ ih =>
    refine .of_succ ?_
    cases hty : types[ty]? with
    | none =>
      simp only [airTypeSizeAlign, hty]
      exact .some none
    | some t =>
      by_cases helem : t.kind = .vector ∨ t.kind = .array
      · obtain ⟨n, hn⟩ := ih (t.op.getD 1 0) ⟨t, hty, .inl ⟨helem, rfl⟩⟩
        obtain ⟨g, hg⟩ := airTypeSizeAlign_element n hty helem
        refine ⟨n, ?_⟩
        simp only [hg, Option.isSome_map]
        exact hn
      · by_cases hstruct : t.kind.isStruct = true
        · simp only [airTypeSizeAlign_struct hty hstruct]
          refine .map (sizeFields_returns (fun f before after hsplit hbefore => ?_) []
            (t.op.drop 1) _ rfl fun _ b hb => by cases hb) _
          exact ih f ⟨t, hty, .inr ⟨hstruct, before, after, hsplit, hbefore⟩⟩
        · refine ⟨0, ?_⟩
          simp only [airTypeSizeAlign, hty]
          cases hk : t.kind <;> simp_all [AirTypeKind.isStruct]

/- The walk of `emit_air_type`. -/

/-- The ids of the types stay, and those of the builder go on. -/
structure SameIds (s s' : TypeEmitter) : Prop where
  memo : s'.spvTypeIds = s.spvTypeIds
  next : s.nextId ≤ s'.nextId

theorem SameIds.refl (s : TypeEmitter) : SameIds s s := ⟨rfl, Nat.le_refl _⟩

theorem SameIds.trans {s u v : TypeEmitter} (h : SameIds s u) (h' : SameIds u v) : SameIds s v :=
  ⟨h'.memo.trans h.memo, h.next.trans h'.next⟩

theorem alloc_same (s : TypeEmitter) : SameIds s s.alloc := ⟨rfl, Nat.le_succ _⟩

theorem cachedType_same (s : TypeEmitter) (k : CacheSlot) (shape : TypeShape) :
    SameIds s (s.cachedType k shape).2 := by
  rw [TypeEmitter.cachedType]
  split_ifs
  · exact .refl s
  · exact ⟨rfl, Nat.le_succ _⟩

theorem emitTypeIntW_same (s : TypeEmitter) (width sign : Nat) :
    SameIds s (s.emitTypeIntW width sign).2 := by
  rw [TypeEmitter.emitTypeIntW]
  split_ifs
  · exact cachedType_same ..
  · cases intSlot width sign with
    | none => exact ⟨rfl, Nat.le_succ _⟩
    | some k => exact cachedType_same ..

theorem emitTypeVec_same (s : TypeEmitter) (elem lanes : Nat) :
    SameIds s (s.emitTypeVec elem lanes).2 := by
  rw [TypeEmitter.emitTypeVec]
  cases s.findVec elem lanes with
  | some e => exact .refl s
  | none =>
    simp only
    split_ifs <;> exact ⟨rfl, Nat.le_succ _⟩

theorem airVector_same (s : TypeEmitter) (elem lanes : Nat) :
    SameIds s (s.airVector elem lanes).2 := by
  have hvec := emitTypeVec_same s elem lanes
  simp only [TypeEmitter.airVector]
  split_ifs <;> first
    | exact .refl s
    | exact hvec
    | exact ⟨hvec.memo, hvec.next⟩

theorem emitTypePointer_same (s : TypeEmitter) (pointee storage : Nat) :
    SameIds s (s.emitTypePointer pointee storage).2 := by
  rw [TypeEmitter.emitTypePointer]
  split
  · exact .refl s
  · simp only
    split_ifs <;> exact ⟨rfl, Nat.le_succ _⟩

/-- Every type in the memo is one without an endless walk below it. -/
def MemoSettled (types : List XlateType) (s : TypeEmitter) : Prop :=
  ∀ i, s.spvTypeIds i ≠ 0 → Acc (flip (EmitFollows types)) i

theorem MemoSettled.memo {s : TypeEmitter} {idx : Nat} (h : MemoSettled types s)
    (hidx : Acc (flip (EmitFollows types)) idx) (id : Nat) : MemoSettled types (s.memo idx id) := by
  intro i hi
  by_cases heq : i = idx
  · rwa [heq]
  · simp only [TypeEmitter.memo] at hi
    rw [Function.update_of_ne heq] at hi
    exact h i hi

theorem MemoSettled.of_eq {s s' : TypeEmitter} (h : MemoSettled types s)
    (heq : s'.spvTypeIds = s.spvTypeIds) : MemoSettled types s' := by
  intro i hi
  rw [heq] at hi
  exact h i hi

/-- The loop over the fields of a struct. -/
def emitFields (types : List XlateType) (fuel : Nat) (fields : List Nat) (s : TypeEmitter) :
    Option TypeEmitter :=
  fields.foldlM (fun s field => (emitAirType types fuel field s).map Prod.snd) s

/-- What an emission does: a type without an entry in the memo, one that has an id, or the types
of the operands and then the type itself. -/
theorem emitAirType_cases {fuel idx id : Nat} {s s' : TypeEmitter}
    (h : emitAirType types (fuel+1) idx s = some (id, s')) :
    (idx = airTypeBool ∨ types[idx]? = none) ∧ SameIds s s' ∨
    idx ≠ airTypeBool ∧ ∃ t, types[idx]? = some t ∧
      (s.spvTypeIds idx ≠ 0 ∧ id = s.spvTypeIds idx ∧ s' = s ∨
        s.spvTypeIds idx = 0 ∧ ∃ v u, emitFields types fuel t.emitOperands s = some v ∧
          SameIds v u ∧ s' = u.memo idx id ∧
          (t.kind.isStruct = true ∨ t.kind = .array → v.nextId ≤ id)) := by
  rw [emitAirType] at h
  by_cases hbool : idx = airTypeBool
  · rw [if_pos hbool] at h
    have hs' : s.emitTypeBool.2 = s' := congrArg Prod.snd (Option.some.inj h)
    exact Or.inl ⟨Or.inl hbool, hs' ▸ cachedType_same ..⟩
  rw [if_neg hbool] at h
  cases hty : types[idx]? with
  | none =>
    rw [hty] at h
    have hs' : (s.emitTypeIntW 32 0).2 = s' := congrArg Prod.snd (Option.some.inj h)
    exact Or.inl ⟨Or.inr rfl, hs' ▸ emitTypeIntW_same ..⟩
  | some t =>
    rw [hty] at h
    refine Or.inr ⟨hbool, t, rfl, ?_⟩
    by_cases hmemo : s.spvTypeIds idx ≠ 0
    · simp only [if_pos hmemo] at h
      cases h
      exact Or.inl ⟨hmemo, rfl, rfl⟩
    simp only [if_neg hmemo] at h
    obtain ⟨⟨out, u⟩, hout, hr⟩ := Option.map_eq_some_iff.1 h
    cases hr
    have hleaf : ∀ {r : Nat × TypeEmitter}, t.emitOperands = [] → SameIds s r.2 →
        some r = some (out, u) → ∃ v, emitFields types fuel t.emitOperands s = some v ∧
          SameIds v u := by
      intro r hops hsame hr
      obtain rfl := Option.some.inj hr
      exact ⟨s, by rw [hops]; rfl, hsame⟩
    have hinner : ∀ {inner : Nat} {g : Nat × TypeEmitter → Nat × TypeEmitter},
        t.emitOperands = [inner] → (∀ e, SameIds e.2 (g e).2) →
        (emitAirType types fuel inner s).map g = some (out, u) →
        ∃ e, emitFields types fuel t.emitOperands s = some e.2 ∧ SameIds e.2 u ∧
          g e = (out, u) := by
      intro inner g hops hg hmap
      obtain ⟨e, he, hge⟩ := Option.map_eq_some_iff.1 hmap
      refine ⟨e, ?_, ?_, hge⟩
      · rw [hops, emitFields, List.foldlM_cons, he]
        rfl
      · have hsame := hg e
        rwa [hge] at hsame
    have hstruct : t.emitOperands = (t.op.drop 1).take maxStructFields →
        ((emitFields types fuel ((t.op.drop 1).take maxStructFields) s).map fun s =>
          (s.nextId, s.alloc)) = some (out, u) →
        ∃ v, emitFields types fuel t.emitOperands s = some v ∧ SameIds v u ∧ v.nextId ≤ out := by
      intro hops hmap
      obtain ⟨v, hv, hgv⟩ := Option.map_eq_some_iff.1 hmap
      cases hgv
      exact ⟨v, by rw [hops, hv], alloc_same v, Nat.le_refl _⟩
    suffices hv : ∃ v, emitFields types fuel t.emitOperands s = some v ∧ SameIds v u ∧
        (t.kind.isStruct = true ∨ t.kind = .array → v.nextId ≤ out) by
      obtain ⟨v, hv, hsame, hid⟩ := hv
      exact Or.inr ⟨not_not.1 hmemo, v, u, hv, hsame, rfl, hid⟩
    cases hkind : t.kind <;> rw [hkind] at hout
    case vector =>
      obtain ⟨e, he, hsame, -⟩ := hinner (by rw [XlateType.emitOperands, hkind])
        (fun _ => airVector_same ..) hout
      exact ⟨e.2, he, hsame, fun h => absurd h (by decide)⟩
    case pointer =>
      obtain ⟨e, he, hsame, -⟩ := hinner (by rw [XlateType.emitOperands, hkind])
        (fun _ => emitTypePointer_same ..) hout
      exact ⟨e.2, he, hsame, fun h => absurd h (by decide)⟩
    case array =>
      -- the type uint and the constant of the length come between
      have hlength : ∀ e : Nat × TypeEmitter, SameIds e.2 (e.2.emitTypeIntW 32 0).2.alloc :=
        fun e => (emitTypeIntW_same e.2 32 0).trans (alloc_same _)
      obtain ⟨e, he, hsame, hge⟩ := hinner (by rw [XlateType.emitOperands, hkind])
        (fun e => (hlength e).trans (alloc_same _)) hout
      have hout : (e.2.emitTypeIntW 32 0).2.alloc.nextId = out := congrArg Prod.fst hge
      exact ⟨e.2, he, hsame, fun _ => hout ▸ (hlength e).next⟩
    case structAnon =>
      obtain ⟨v, hv, hsame, hid⟩ := hstruct (by rw [XlateType.emitOperands, hkind]) hout
      exact ⟨v, hv, hsame, fun _ => hid⟩
    case structNamed =>
      obtain ⟨v, hv, hsame, hid⟩ := hstruct (by rw [XlateType.emitOperands, hkind]) hout
      exact ⟨v, hv, hsame, fun _ => hid⟩
    case void | float | half =>
      obtain ⟨v, hv, hsame⟩ := hleaf (by rw [XlateType.emitOperands, hkind])
        (cachedType_same ..) hout
      exact ⟨v, hv, hsame, fun h => absurd h (by decide)⟩
    all_goals
      obtain ⟨v, hv, hsame⟩ := hleaf (by rw [XlateType.emitOperands, hkind])
        (emitTypeIntW_same ..) hout
      exact ⟨v, hv, hsame, fun h => absurd h (by decide)⟩

theorem emitFields_acc {fuel : Nat}
    (ih : ∀ {idx id : Nat} {s s' : TypeEmitter}, MemoSettled types s →
      emitAirType types fuel idx s = some (id, s') →
      Acc (flip (EmitFollows types)) idx ∧ MemoSettled types s') {fields : List Nat}
    {s s' : TypeEmitter} (hs : MemoSettled types s) (h : emitFields types fuel fields s = some s') :
    (∀ f ∈ fields, Acc (flip (EmitFollows types)) f) ∧ MemoSettled types s' := by
  induction fields generalizing s with
  | nil =>
    cases h
    exact ⟨fun f hf => (by cases hf), hs⟩
  | cons f fields ihl =>
    rw [emitFields, List.foldlM_cons] at h
    obtain ⟨u, hu, h⟩ := Option.bind_eq_some_iff.1 h
    obtain ⟨⟨i, v⟩, hi, rfl⟩ := Option.map_eq_some_iff.1 hu
    obtain ⟨hf, hv⟩ := ih hs hi
    obtain ⟨hfields, hs'⟩ := ihl hv h
    exact ⟨List.forall_mem_cons.2 ⟨hf, hfields⟩, hs'⟩

theorem acc_of_operands {idx : Nat} {t : XlateType} (hty : types[idx]? = some t)
    (h : ∀ f ∈ t.emitOperands, Acc (flip (EmitFollows types)) f) :
    Acc (flip (EmitFollows types)) idx := by
  refine ⟨idx, ?_⟩
  rintro f ⟨-, t', hty', hf⟩
  obtain rfl := Option.some.inj (hty.symm.trans hty')
  exact h f hf

/-- An emission that returns has no endless walk below it. -/
theorem emitAirType_acc {fuel idx id : Nat} {s s' : TypeEmitter} (hs : MemoSettled types s)
    (h : emitAirType types fuel idx s = some (id, s')) :
    Acc (flip (EmitFollows types)) idx ∧ MemoSettled types s' := by
  induction fuel generalizing idx id s s' with
  | zero => cases h
  | succ fuel ih =>
    obtain ⟨hend, hsame⟩ | ⟨-, t, hty, ⟨hmemo, -, rfl⟩ | ⟨-, v, u, hv, hsame, rfl, -⟩⟩ :=
      emitAirType_cases h
    · refine ⟨⟨idx, fun f hf => ?_⟩, hs.of_eq hsame.memo⟩
      obtain ⟨hbool, t, hty, -⟩ := hf
      obtain hend | hend := hend
      · exact absurd hend hbool
      · cases hend.symm.trans hty
    · exact ⟨hs idx hmemo, hs⟩
    · obtain ⟨hacc, hset⟩ := emitFields_acc ih hs hv
      have hidx := acc_of_operands hty hacc
      exact ⟨hidx, (hset.of_eq hsame.memo).memo hidx id⟩

/-- Ids once given stay. -/
structure KeepsIds (s s' : TypeEmitter) : Prop where
  memo : ∀ i, s.spvTypeIds i ≠ 0 → s'.spvTypeIds i = s.spvTypeIds i
  next : s.nextId ≤ s'.nextId

theorem KeepsIds.refl (s : TypeEmitter) : KeepsIds s s := ⟨fun _ _ => rfl, Nat.le_refl _⟩

theorem KeepsIds.trans {s u v : TypeEmitter} (h : KeepsIds s u) (h' : KeepsIds u v) :
    KeepsIds s v := by
  refine ⟨fun i hi => ?_, h.next.trans h'.next⟩
  have hu := h.memo i hi
  exact (h'.memo i (hu ▸ hi)).trans hu

theorem SameIds.keeps {s s' : TypeEmitter} (h : SameIds s s') : KeepsIds s s' :=
  ⟨fun i _ => congrFun h.memo i, h.next⟩

theorem emitFields_keeps {fuel : Nat}
    (ih : ∀ {idx id : Nat} {s s' : TypeEmitter},
      emitAirType types fuel idx s = some (id, s') → KeepsIds s s') {fields : List Nat}
    {s s' : TypeEmitter} (h : emitFields types fuel fields s = some s') : KeepsIds s s' := by
  induction fields generalizing s with
  | nil =>
    cases h
    exact .refl _
  | cons f fields ihl =>
    rw [emitFields, List.foldlM_cons] at h
    obtain ⟨u, hu, h⟩ := Option.bind_eq_some_iff.1 h
    obtain ⟨⟨i, v⟩, hi, rfl⟩ := Option.map_eq_some_iff.1 hu
    exact (ih hi).trans (ihl h)

theorem emitAirType_keeps {fuel idx id : Nat} {s s' : TypeEmitter}
    (h : emitAirType types fuel idx s = some (id, s')) : KeepsIds s s' := by
  induction fuel generalizing idx id s s' with
  | zero => cases h
  | succ fuel ih =>
    obtain ⟨-, hsame⟩ | ⟨-, t, -, ⟨-, -, rfl⟩ | ⟨hnew, v, u, hv, hsame, rfl, -⟩⟩ :=
      emitAirType_cases h
    · exact hsame.keeps
    · exact .refl _
    · have hkeeps := (emitFields_keeps ih hv).trans hsame.keeps
      refine ⟨fun i hi => ?_, hkeeps.next⟩
      have hne : i ≠ idx := fun heq => hi (heq ▸ hnew)
      exact (Function.update_of_ne hne id u.spvTypeIds).trans (hkeeps.memo i hi)

/-- A struct or an array has an id, and the memo knows it. -/
theorem emitAirType_aggregate {fuel idx id : Nat} {s s' : TypeEmitter} {t : XlateType}
    (h : emitAirType types fuel idx s = some (id, s')) (hidx : idx ≠ airTypeBool)
    (hty : types[idx]? = some t) (hkind : t.kind.isStruct = true ∨ t.kind = .array)
    (hnext : s.nextId ≠ 0) : id ≠ 0 ∧ s'.spvTypeIds idx = id := by
  cases fuel with
  | zero => cases h
  | succ fuel =>
    obtain ⟨hend | hend, -⟩ | ⟨-, t', hty', ⟨hmemo, rfl, rfl⟩ | ⟨-, v, u, hv, -, rfl, hid⟩⟩ :=
      emitAirType_cases h
    · exact absurd hend hidx
    · cases hend.symm.trans hty
    · exact ⟨hmemo, rfl⟩
    · obtain rfl := Option.some.inj (hty.symm.trans hty')
      have hkeeps := emitFields_keeps emitAirType_keeps hv
      have hle := hid hkind
      have hle' := hkeeps.next
      exact ⟨by omega, by simp only [TypeEmitter.memo, Function.update_self]⟩

/-- Without an endless walk below it, the emission returns. -/
theorem emitAirType_returns {idx : Nat} (h : Acc (flip (EmitFollows types)) idx)
    (s : TypeEmitter) : Returns fun n => emitAirType types n idx s := by
  induction h generalizing s with
  | intro idx _ ih =>
    refine .of_succ ?_
    by_cases hbool : idx = airTypeBool
    · simp only [emitAirType, if_pos hbool]
      exact .some _
    simp only [emitAirType, if_neg hbool]
    cases hty : types[idx]? with
    | none => exact .some _
    | some t =>
      by_cases hmemo : s.spvTypeIds idx ≠ 0
      · simp only [if_pos hmemo]
        exact .some _
      simp only [if_neg hmemo]
      have hnext : ∀ f ∈ t.emitOperands, ∀ s, Returns fun n => emitAirType types n f s :=
        fun f hf s => ih f ⟨hbool, t, hty, hf⟩ s
      have hinner : ∀ {inner}, t.emitOperands = [inner] →
          Returns fun n => emitAirType types n inner s := fun {inner} hops =>
        hnext inner (by rw [hops]; exact List.mem_singleton_self inner) s
      have hfields : ∀ fields, t.emitOperands = fields →
          Returns fun n => emitFields types n fields s := by
        rintro fields rfl
        exact .foldlM (fun s f n => (emitAirType_deepens f s n).map _) _
          (fun f hf s => (hnext f hf s).map _) s
      refine .map ?_ _
      cases hkind : t.kind
      case vector => exact (hinner (by rw [XlateType.emitOperands, hkind])).map _
      case pointer => exact (hinner (by rw [XlateType.emitOperands, hkind])).map _
      case array => exact (hinner (by rw [XlateType.emitOperands, hkind])).map _
      case structAnon => exact (hfields _ (by rw [XlateType.emitOperands, hkind])).map _
      case structNamed => exact (hfields _ (by rw [XlateType.emitOperands, hkind])).map _
      all_goals exact .some _

/- The walk of `decorate_nested_layout`. -/

theorem decorateFields_returns {fields : List Nat}
    (hsize : ∀ ty, Returns fun n => airTypeSizeAlign types n ty)
    (ih : ∀ f before after, fields = before++f::after → (∀ b ∈ before, HasLayout types b) →
      ∀ visited s, Returns fun n => decorateNestedLayout types n f visited s) (sid : Nat)
    (before after : List Nat) (hsplit : fields = before++after)
    (hbefore : ∀ b ∈ before, HasLayout types b) (i off : Nat) (visited : List Nat)
    (s : LayoutEmitter) :
    Returns fun n => decorateFields (airTypeSizeAlign types n) (decorateNestedLayout types n) sid
      after i off visited s := by
  induction after generalizing before i off visited s with
  | nil => exact .some _
  | cons f after ihl =>
    simp only [decorateFields]
    refine .bind (airTypeSizeAlign_deepens f) (fun e n => ?_) (hsize f) fun e n he => ?_
    · cases e with
      | none => exact .refl _
      | some e =>
        exact (decorateNestedLayout_deepens f _ _ n).bind fun r =>
          decorateFields_within (fun f => airTypeSizeAlign_deepens f n)
            (fun f visited s => decorateNestedLayout_deepens f visited s n) _ _ _ _ _ _
    · cases e with
      | none => exact .some _
      | some e =>
        refine .bind (decorateNestedLayout_deepens f _ _) (fun r n => ?_)
          (ih f before after hsplit hbefore _ _) fun r _ _ => ?_
        · exact decorateFields_within (fun f => airTypeSizeAlign_deepens f n)
            (fun f visited s => decorateNestedLayout_deepens f visited s n) _ _ _ _ _ _
        · refine ihl (before++[f]) (by rw [hsplit, List.append_assoc]; rfl) ?_ _ _ _ _
          intro b hb
          rcases List.mem_append.1 hb with hb | hb
          · exact hbefore b hb
          · rw [List.mem_singleton.1 hb]
            exact (airTypeSizeAlign_layout he).1 rfl

theorem decorateNestedLayout_returns
    (hemit : ∀ idx s, Returns fun n => emitAirType types n idx s)
    (hsize : ∀ ty, Returns fun n => airTypeSizeAlign types n ty) {ty : Nat}
    (h : Acc (flip (SizeFollows types)) ty) (visited : List Nat) (s : LayoutEmitter) :
    Returns fun n => decorateNestedLayout types n ty visited s := by
  induction h generalizing visited s with
  | intro ty _ ih =>
    refine .of_succ ?_
    simp only [decorateNestedLayout]
    cases hty : types[ty]? with
    | none => exact .some _
    | some t =>
      by_cases hvisited : ty ∈ visited
      · simp only [if_pos hvisited]
        exact .some _
      simp only [if_neg hvisited]
      have hstruct : t.kind.isStruct = true → ∀ visited : List Nat, Returns fun n =>
          (emitAirType types n ty s.types).bind fun sid =>
            decorateFields (airTypeSizeAlign types n) (decorateNestedLayout types n) sid.1
              (t.op.drop 1) 0 0 visited { s with types := sid.2 } := by
        intro hkind visited
        refine .bind (emitAirType_deepens ty s.types) (fun sid n => ?_) (hemit ty s.types)
          fun sid _ _ => ?_
        · exact decorateFields_within (fun f => airTypeSizeAlign_deepens f n)
            (fun f visited s => decorateNestedLayout_deepens f visited s n) _ _ _ _ _ _
        · exact decorateFields_returns hsize (fun f before after hsplit hbefore visited s =>
            ih f ⟨t, hty, .inr ⟨hkind, before, after, hsplit, hbefore⟩⟩ visited s) sid.1 []
            (t.op.drop 1) rfl (fun b hb => by cases hb) _ _ _ _
      cases hkind : t.kind
      case structAnon => exact hstruct (by rw [hkind]; rfl) _
      case structNamed => exact hstruct (by rw [hkind]; rfl) _
      case array =>
        by_cases hnum : t.op.length < 2
        · simp only [if_pos hnum]
          exact .some _
        simp only [if_neg hnum]
        generalize (if visited.length < maxVisited then visited++[ty] else visited) = visited'
        have hnext : ∀ s, Returns fun n =>
            decorateNestedLayout types n (t.op.getD 1 0) visited' s :=
          fun s => ih _ ⟨t, hty, .inl ⟨.inr hkind, rfl⟩⟩ visited' s
        refine .bind (airTypeSizeAlign_deepens _) (fun e n => ?_) (hsize _) fun e _ _ => ?_
        · cases e with
          | none => exact decorateNestedLayout_deepens _ _ _ n
          | some e =>
            exact ((emitAirType_deepens ty s.types n).map _).bind fun s =>
              decorateNestedLayout_deepens _ _ s n
        · cases e with
          | none => exact hnext s
          | some e =>
            exact .bind (fun n => (emitAirType_deepens ty s.types n).map _)
              (fun s => decorateNestedLayout_deepens _ _ s) ((hemit ty s.types).map _)
              fun s _ _ => hnext s
      all_goals exact .some _

/- The whole. -/

theorem follows_sources (r : Nat → Nat → Prop) (h : ∀ ty f, r ty f → ∃ t, types[ty]? = some t) :
    {ty | ∃ f, r ty f}.Finite := by
  refine (Set.finite_lt_nat types.length).subset ?_
  rintro ty ⟨f, hf⟩
  obtain ⟨t, ht⟩ := h ty f hf
  exact (List.getElem?_eq_some_iff.1 ht).1

theorem emitFollows_acyclic_iff : Acyclic (EmitFollows types) ↔
    ∀ idx s, Returns fun n => emitAirType types n idx s := by
  rw [acyclic_iff_acc (follows_sources _ fun ty f h => h.2.imp fun _ ht => ht.1)]
  constructor
  · exact fun h idx s => emitAirType_returns (h idx) s
  · intro h idx
    obtain ⟨n, hn⟩ := h idx {}
    obtain ⟨⟨id, s⟩, hr⟩ := Option.isSome_iff_exists.1 hn
    exact (emitAirType_acc (fun i hi => absurd rfl hi) hr).1

theorem sizeFollows_acyclic_iff : Acyclic (SizeFollows types) ↔
    ∀ ty, Returns fun n => airTypeSizeAlign types n ty := by
  rw [acyclic_iff_acc (follows_sources _ fun ty f h => h.imp fun _ ht => ht.1)]
  constructor
  · exact fun h ty => airTypeSizeAlign_returns (h ty)
  · intro h ty
    obtain ⟨n, hn⟩ := h ty
    exact airTypeSizeAlign_acc hn

/-- Every call returns just when no type comes back to itself, through what `emit_air_type`
follows or through what `air_type_size_align` follows. -/
theorem type_emission_ends_iff (types : List XlateType) :
    TypeEmissionEnds types ↔ Acyclic (EmitFollows types) ∧ Acyclic (SizeFollows types) := by
  constructor
  · exact fun h => ⟨emitFollows_acyclic_iff.2 h.emit, sizeFollows_acyclic_iff.2 h.sizeAlign⟩
  · rintro ⟨hemit, hsize⟩
    have hemit' := emitFollows_acyclic_iff.1 hemit
    have hsize' := sizeFollows_acyclic_iff.1 hsize
    have hacc := (acyclic_iff_acc (follows_sources _ fun ty f h => h.imp fun _ ht => ht.1)).1 hsize
    exact ⟨hemit', hsize', fun ty => decorateNestedLayout_returns hemit' hsize' (hacc ty)⟩

/-- A pointer to itself. -/
theorem self_pointer_endless : ¬TypeEmissionEnds [⟨.pointer, [0, 0]⟩] := by
  intro h
  have hacyclic := emitFollows_acyclic_iff.2 h.emit
  exact hacyclic 0 (.single ⟨by decide, _, rfl, List.mem_singleton_self 0⟩)

end

end Lagfx
