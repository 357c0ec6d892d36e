import Lagfx.TypeCaches
import Lagfx.Lib.Runs
import Mathlib.Data.List.Nodup

/-! When the types that a translation declares are declared once. -/
namespace Lagfx
open Runs

/-- The field that keeps a shape from being declared again, where there is one. -/
def TypeShape.slot : TypeShape → Option CacheSlot
  | .void => some .void
  | .bool => some .bool
  | .int width sign => intSlot width sign
  | .float 32 => some .float32
  | .float 16 => some .half
  | .image _ _ => some .imageT
  | .sampler => some .samplerT
  | .sampledImage _ => some .sampimgT
  | _ => none

/-- The fields that keep no shape of their own. -/
def otherSlots : List CacheSlot := [.fnVoid, .vec2F, .vec3F, .vec4F]

theorem intSlot_fields {width sign : Nat} {k : CacheSlot} (h : intSlot width sign = some k) :
    k ∉ otherSlots := by
  unfold intSlot at h
  split at h
  all_goals first
    | (cases h; decide)
    | cases h

theorem slot_fields {x : TypeShape} {k : CacheSlot} (h : x.slot = some k) :
    k ∉ otherSlots := by
  unfold TypeShape.slot at h
  split at h
  all_goals first
    | exact intSlot_fields h
    | (cases h; decide)
    | cases h

namespace TypeEmitter

def shapes (s : TypeEmitter) : List TypeShape := s.decls.map TypeDecl.shape

/-- The id of a helper's return type. -/
def retId (s : TypeEmitter) (o : HelperFn) : Nat :=
  if o.retSpv ≠ 0 then o.retSpv else s.ctx.ids .void

/-- What is declared is found again: by its field, while there is room among the vectors,
and as the function type of the entry or of a helper. -/
structure Cached (s : TypeEmitter) : Prop where
  next : s.nextId ≠ 0
  slots : ∀ x ∈ s.shapes, ∀ k, x.slot = some k → s.ctx.ids k ≠ 0
  vecs : ∀ e l, .vector e l ∈ s.shapes → s.ctx.vecCache.length < maxVecCache →
    (s.findVec e l).isSome
  fns : ∀ r ps, .function r ps ∈ s.shapes ↔
    (s.ctx.ids .fnVoid ≠ 0 ∧ r = s.ctx.ids .void ∧ ps = []) ∨
      ∃ o ∈ s.fns, s.retId o = r ∧ o.params = ps
  void : s.ctx.ids .void = 0 → s.ctx.ids .fnVoid = 0 ∧ ∀ o ∈ s.fns, o.retSpv ≠ 0

variable {s : TypeEmitter}

@[simp] theorem shapes_emit (s : TypeEmitter) (id : Nat) (x : TypeShape) :
    (s.emit id x).shapes = s.shapes ++ [x] := by
  simp [shapes, emit]

@[simp] theorem shapes_alloc (s : TypeEmitter) : s.alloc.shapes = s.shapes := rfl

@[simp] theorem shapes_setId (s : TypeEmitter) (k : CacheSlot) (id : Nat) :
    (s.setId k id).shapes = s.shapes := rfl

@[simp] theorem ids_setId_self (s : TypeEmitter) (k : CacheSlot) (id : Nat) :
    (s.setId k id).ctx.ids k = id := Function.update_self ..

theorem ids_setId_of_ne (s : TypeEmitter) {k k' : CacheSlot} (h : k' ≠ k) (id : Nat) :
    (s.setId k id).ctx.ids k' = s.ctx.ids k' := Function.update_of_ne h ..

@[simp] theorem ids_emit (s : TypeEmitter) (id : Nat) (x : TypeShape) :
    (s.emit id x).ctx = s.ctx := rfl

theorem unique_emit (s : TypeEmitter) (id : Nat) (x : TypeShape) :
    (s.emit id x).Unique ↔ s.Unique ∧ x ∉ s.shapes := by
  change (s.emit id x).shapes.Nodup ↔ s.shapes.Nodup ∧ x ∉ s.shapes
  rw [shapes_emit, ← List.concat_eq_append, List.nodup_concat]
  exact and_comm

theorem Cached.alloc (h : s.Cached) : s.alloc.Cached :=
  ⟨Nat.succ_ne_zero _, h.slots, h.vecs, h.fns, h.void⟩

/-- A type with a field is declared, and its id goes to the field. -/
theorem Cached.declared (h : s.Cached) {k : CacheSlot} {x : TypeShape} {id : Nat}
    (hx : x.slot = some k) (hk : s.ctx.ids k = 0) (hid : id ≠ 0) :
    ((s.emit id x).setId k id).Cached := by
  have hid' (k' : CacheSlot) (hne : k' ≠ k) :
      ((s.emit id x).setId k id).ctx.ids k' = s.ctx.ids k' := ids_setId_of_ne _ hne id
  have hfn := hid' .fnVoid (by rintro rfl; exact slot_fields hx (by decide))
  have hret : ∀ o ∈ s.fns, ((s.emit id x).setId k id).retId o = s.retId o := by
    intro o ho
    rw [retId, retId]
    split_ifs with hr
    · rfl
    · refine hid' _ ?_
      rintro rfl
      exact hr ((h.void hk).2 o ho)
  have hold : ∀ y, y ≠ x → (y ∈ ((s.emit id x).setId k id).shapes ↔ y ∈ s.shapes) := by
    intro y hne
    rw [shapes_setId, shapes_emit, List.mem_append, List.mem_singleton]
    exact or_iff_left hne
  refine ⟨h.next, ?_, ?_, ?_, ?_⟩
  · intro y hy k' hk'
    by_cases heq : k' = k
    · rw [heq, ids_setId_self]
      exact hid
    · have hyx : y ≠ x := by
        rintro rfl
        exact heq (Option.some.inj (hk'.symm.trans hx))
      rw [hid' k' heq]
      exact h.slots y ((hold y hyx).1 hy) k' hk'
  · intro e l hmem
    have hne : TypeShape.vector e l ≠ x := by
      rintro rfl
      cases hx
    exact h.vecs e l ((hold _ hne).1 hmem)
  · intro r ps
    have hne : TypeShape.function r ps ≠ x := by
      rintro rfl
      cases hx
    rw [hold _ hne, h.fns, hfn]
    refine or_congr (and_congr_right fun hf => ?_) ?_
    · rw [hid' .void (by rintro rfl; exact hf (h.void hk).1)]
    · exact exists_congr fun o => and_congr_right fun ho => by rw [hret o ho]
  · intro hz
    rw [hfn]
    by_cases hkv : CacheSlot.void = k
    · subst hkv
      rw [ids_setId_self] at hz
      exact absurd hz hid
    · rw [hid' _ hkv] at hz
      exact h.void hz

/-- A type without a field is declared, neither a vector nor a function. -/
theorem Cached.unslotted (h : s.Cached) {x : TypeShape} {id : Nat} (hx : x.slot = none)
    (hv : ∀ e l, .vector e l ≠ x) (hf : ∀ r ps, .function r ps ≠ x) : (s.emit id x).Cached := by
  have hold : ∀ y, y ≠ x → (y ∈ (s.emit id x).shapes ↔ y ∈ s.shapes) := by
    intro y hne
    rw [shapes_emit, List.mem_append, List.mem_singleton]
    exact or_iff_left hne
  refine ⟨h.next, ?_, ?_, ?_, h.void⟩
  · intro y hy k hk
    have hyx : y ≠ x := by
      rintro rfl
      rw [hx] at hk
      cases hk
    exact h.slots y ((hold y hyx).1 hy) k hk
  · exact fun e l hmem => h.vecs e l ((hold _ (hv e l)).1 hmem)
  · exact fun r ps => (hold _ (hf r ps)).trans (h.fns r ps)

theorem Cached.fresh (h : s.Cached) {k : CacheSlot} {x : TypeShape} (hx : x.slot = some k)
    (hk : s.ctx.ids k = 0) : x ∉ s.shapes :=
  fun hmem => h.slots x hmem k hx hk

theorem cachedType_cached (h : s.Cached) {k : CacheSlot} {x : TypeShape}
    (hx : x.slot = some k) : (s.cachedType k x).2.Cached := by
  rw [cachedType]
  split_ifs with hk
  · exact h
  · exact h.alloc.declared hx (not_not.1 hk) h.next

theorem cachedType_unique (h : s.Cached) {k : CacheSlot} {x : TypeShape}
    (hx : x.slot = some k) : (s.cachedType k x).2.Unique ↔ s.Unique := by
  rw [cachedType]
  split_ifs with hk
  · exact Iff.rfl
  · exact (unique_emit s.alloc s.nextId x).trans (and_iff_left (h.fresh hx (not_not.1 hk)))

theorem intW_cached (h : s.Cached) (width sign : Nat) : (s.emitTypeIntW width sign).2.Cached := by
  rw [emitTypeIntW]
  split_ifs with hw
  · exact cachedType_cached h rfl
  · cases hk : intSlot width sign with
    | some k => exact cachedType_cached h hk
    | none => exact h.alloc.unslotted hk (fun e l => nofun) (fun r ps => nofun)

/-- The widths that have a field, and bool. -/
def IntOk (s : TypeEmitter) (width sign : Nat) : Prop :=
  width = 1 ∨ (intSlot width sign).isSome = true ∨ .int width sign ∉ s.shapes

theorem intW_unique (h : s.Cached) (width sign : Nat) :
    (s.emitTypeIntW width sign).2.Unique ↔ s.Unique ∧ s.IntOk width sign := by
  rw [emitTypeIntW, IntOk]
  split_ifs with hw
  · rw [emitTypeBool, cachedType_unique h rfl]
    simp [hw]
  · cases hk : intSlot width sign with
    | some k =>
      have hslot : TypeShape.slot (.int width sign) = some k := hk
      simp [cachedType_unique h hslot]
    | none =>
      have hdecl : (s.declare (.int width sign)).2.Unique ↔
          s.Unique ∧ .int width sign ∉ s.shapes := unique_emit s.alloc s.nextId _
      simp [hdecl, hw]

/- Vectors. -/

/-- There is room for the vector, it is in the cache, or it is new. -/
def VecOk (s : TypeEmitter) (elem lanes : Nat) : Prop :=
  s.ctx.vecCache.length < maxVecCache ∨ (s.findVec elem lanes).isSome = true ∨
    .vector elem lanes ∉ s.shapes

theorem vec_unique (h : s.Cached) (elem lanes : Nat) :
    (s.emitTypeVec elem lanes).2.Unique ↔ s.Unique ∧ s.VecOk elem lanes := by
  rw [emitTypeVec, VecOk]
  cases hf : s.findVec elem lanes with
  | some e => simp
  | none =>
    have hdecl : (s.declare (.vector elem lanes)).2.Unique ↔
        s.Unique ∧ .vector elem lanes ∉ s.shapes := unique_emit s.alloc s.nextId _
    have hroom : s.ctx.vecCache.length < maxVecCache → .vector elem lanes ∉ s.shapes := by
      intro hlt hmem
      have hsome := h.vecs elem lanes hmem hlt
      rw [hf] at hsome
      cases hsome
    have hsame : ∀ c, ({ (s.declare (.vector elem lanes)).2 with ctx := c }).Unique ↔
        (s.declare (.vector elem lanes)).2.Unique := fun _ => Iff.rfl
    simp only [Option.isSome_none, Bool.false_eq_true, false_or]
    rw [or_iff_right_of_imp hroom, ← hdecl]
    split_ifs
    · exact hsame _
    · exact Iff.rfl

theorem vec_cached (h : s.Cached) (elem lanes : Nat) :
    (s.emitTypeVec elem lanes).2.Cached := by
  rw [emitTypeVec]
  cases hf : s.findVec elem lanes with
  | some e => exact h
  | none =>
    have hold : ∀ y, y ≠ .vector elem lanes →
        (y ∈ (s.declare (.vector elem lanes)).2.shapes ↔ y ∈ s.shapes) := by
      intro y hne
      rw [declare, shapes_emit, List.mem_append, List.mem_singleton, shapes_alloc]
      exact or_iff_left hne
    have hslots : ∀ x ∈ (s.declare (.vector elem lanes)).2.shapes, ∀ k, x.slot = some k →
        s.ctx.ids k ≠ 0 := by
      intro x hx k hk
      have hne : x ≠ .vector elem lanes := by
        rintro rfl
        cases hk
      exact h.slots x ((hold x hne).1 hx) k hk
    have hfns : ∀ r ps, .function r ps ∈ (s.declare (.vector elem lanes)).2.shapes ↔
        (s.ctx.ids .fnVoid ≠ 0 ∧ r = s.ctx.ids .void ∧ ps = []) ∨
          ∃ o ∈ s.fns, s.retId o = r ∧ o.params = ps := fun r ps =>
      (hold (.function r ps) nofun).trans (h.fns r ps)
    have hnext : s.nextId+1 ≠ 0 := Nat.succ_ne_zero _
    simp only
    split_ifs with hroom
    · refine ⟨hnext, hslots, ?_, hfns, h.void⟩
      intro e l hmem _
      -- the new entry is the last: what was found before is found before it
      rw [findVec, List.find?_append, Option.isSome_or]
      by_cases hsame : TypeShape.vector e l = .vector elem lanes
      · cases hsame
        simp
      · have hfound := h.vecs e l ((hold _ hsame).1 hmem) hroom
        rw [findVec] at hfound
        exact Bool.or_eq_true_iff.2 (.inl hfound)
    · exact ⟨hnext, hslots, fun e l _ hlt => absurd hlt hroom, hfns, h.void⟩

/-- A field that keeps no shape may be set, but for that of the entry's function type. -/
theorem Cached.setVec (h : s.Cached) {k : CacheSlot} (hk : k ∈ otherSlots) (hne : k ≠ .fnVoid)
    (id : Nat) : (s.setId k id).Cached := by
  have hvoid : (s.setId k id).ctx.ids .void = s.ctx.ids .void :=
    ids_setId_of_ne s (by rintro rfl; revert hk; decide) id
  have hfn : (s.setId k id).ctx.ids .fnVoid = s.ctx.ids .fnVoid := ids_setId_of_ne s hne.symm id
  have hret : ∀ o, (s.setId k id).retId o = s.retId o := fun o => by rw [retId, retId, hvoid]
  refine ⟨h.next, ?_, h.vecs, ?_, ?_⟩
  · intro x hx k' hk'
    rw [ids_setId_of_ne s (by rintro rfl; exact slot_fields hk' hk)]
    exact h.slots x hx k' hk'
  · intro r ps
    simp only [hvoid, hfn, hret]
    exact h.fns r ps
  · rw [hvoid, hfn]
    exact h.void

theorem float32_cached (h : s.Cached) : s.emitTypeFloat32.2.Cached := cachedType_cached h rfl

theorem vecF_cached (h : s.Cached) {k : CacheSlot} (hk : k ∈ otherSlots) (hne : k ≠ .fnVoid)
    (lanes : Nat) : (s.emitTypeVecF k lanes).2.Cached := by
  rw [emitTypeVecF]
  split_ifs
  · exact h
  · exact (vec_cached (float32_cached h) _ lanes).setVec hk hne _

/-- The id that float has or gets. -/
def float32Id (s : TypeEmitter) : Nat :=
  if s.ctx.ids .float32 ≠ 0 then s.ctx.ids .float32 else s.nextId

/-- The float vector has its field, or may be declared. -/
def VecFOk (s : TypeEmitter) (k : CacheSlot) (lanes : Nat) : Prop :=
  s.ctx.ids k ≠ 0 ∨ s.VecOk s.float32Id lanes

theorem cachedType_fst (s : TypeEmitter) (k : CacheSlot) (x : TypeShape) :
    (s.cachedType k x).1 = if s.ctx.ids k ≠ 0 then s.ctx.ids k else s.nextId := by
  rw [cachedType]
  split_ifs
  · rfl
  · rfl

theorem cachedType_vecOk (s : TypeEmitter) {k : CacheSlot} {x : TypeShape}
    (hx : x.slot = some k) (e l : Nat) : (s.cachedType k x).2.VecOk e l ↔ s.VecOk e l := by
  rw [cachedType]
  split_ifs
  · exact Iff.rfl
  · have hmem : .vector e l ∈ (s.declare x).2.shapes ↔ .vector e l ∈ s.shapes := by
      rw [declare, shapes_emit, List.mem_append, List.mem_singleton, shapes_alloc]
      refine or_iff_left ?_
      rintro rfl
      cases hx
    exact or_congr Iff.rfl (or_congr Iff.rfl (not_congr hmem))

theorem vecF_unique (h : s.Cached) (k : CacheSlot) (lanes : Nat) :
    (s.emitTypeVecF k lanes).2.Unique ↔ s.Unique ∧ s.VecFOk k lanes := by
  rw [emitTypeVecF, VecFOk]
  split_ifs with hk
  · simp [hk]
  · have hset : ∀ (t : TypeEmitter) id, (t.setId k id).Unique ↔ t.Unique := fun _ _ => Iff.rfl
    rw [hset, vec_unique (float32_cached h), emitTypeFloat32, cachedType_unique h rfl,
      cachedType_vecOk s rfl, cachedType_fst, or_iff_right hk]
    rfl

/-- The vector of a type of the module: one of the float fields has it, or it may be
declared. -/
def AirVectorOk (s : TypeEmitter) (elem lanes : Nat) : Prop :=
  (elem = s.ctx.ids .float32 ∧ (lanes = 2 ∧ s.ctx.ids .vec2F ≠ 0 ∨
    lanes = 3 ∧ s.ctx.ids .vec3F ≠ 0 ∨ lanes = 4 ∧ s.ctx.ids .vec4F ≠ 0)) ∨ s.VecOk elem lanes

theorem airVector_cached (h : s.Cached) (elem lanes : Nat) :
    (s.airVector elem lanes).2.Cached := by
  have hv := vec_cached h elem lanes
  simp only [airVector]
  split_ifs
  · exact h
  · exact h
  · exact h
  · exact hv
  · exact hv.setVec (by decide) (by decide) _
  · exact hv.setVec (by decide) (by decide) _
  · exact hv.setVec (by decide) (by decide) _
  · exact hv

theorem airVector_unique (h : s.Cached) (elem lanes : Nat) :
    (s.airVector elem lanes).2.Unique ↔ s.Unique ∧ s.AirVectorOk elem lanes := by
  have hset : ∀ (t : TypeEmitter) k id, (t.setId k id).Unique ↔ t.Unique :=
    fun _ _ _ => Iff.rfl
  have hvec := vec_unique h elem lanes
  rw [AirVectorOk]
  by_cases hfield : elem = s.ctx.ids .float32 ∧ (lanes = 2 ∧ s.ctx.ids .vec2F ≠ 0 ∨
      lanes = 3 ∧ s.ctx.ids .vec3F ≠ 0 ∨ lanes = 4 ∧ s.ctx.ids .vec4F ≠ 0)
  · rw [and_iff_left (.inl hfield)]
    obtain ⟨rfl, ⟨rfl, hid⟩ | ⟨rfl, hid⟩ | ⟨rfl, hid⟩⟩ := hfield
    all_goals simp [airVector, hid]
  · rw [or_iff_right hfield, ← hvec]
    simp only [airVector, decide_eq_true_eq, decide_eq_false_iff_not]
    split_ifs with h2 h3 h4
    · exact absurd ⟨h2.2.1, .inl ⟨h2.1, h2.2.2⟩⟩ hfield
    · exact absurd ⟨h3.2.1, .inr (.inl ⟨h3.1, h3.2.2⟩)⟩ hfield
    · exact absurd ⟨h4.2.1, .inr (.inr ⟨h4.1, h4.2.2⟩)⟩ hfield
    all_goals exact Iff.rfl

/- Images. -/

theorem cachedType_ids_of_ne (s : TypeEmitter) {k k' : CacheSlot} (hne : k' ≠ k) (x : TypeShape) :
    (s.cachedType k x).2.ctx.ids k' = s.ctx.ids k' := by
  rw [cachedType]
  split_ifs
  · rfl
  · exact ids_setId_of_ne _ hne _

theorem image2dF_cached (h : s.Cached) : s.emitTypeImage2dF.2.Cached := by
  rw [emitTypeImage2dF]
  split_ifs with hid
  · exact h
  · refine (float32_cached h.alloc).declared rfl ?_ h.next
    exact (cachedType_ids_of_ne s.alloc (by decide) _).trans (not_not.1 hid)

theorem image2dF_unique (h : s.Cached) : s.emitTypeImage2dF.2.Unique ↔ s.Unique := by
  rw [emitTypeImage2dF]
  split_ifs with hid
  · exact Iff.rfl
  · have hfree : s.alloc.emitTypeFloat32.2.ctx.ids .imageT = 0 :=
      (cachedType_ids_of_ne s.alloc (by decide) _).trans (not_not.1 hid)
    calc _ ↔ s.alloc.emitTypeFloat32.2.Unique ∧ _ := unique_emit ..
      _ ↔ s.alloc.emitTypeFloat32.2.Unique :=
        and_iff_left ((float32_cached h.alloc).fresh rfl hfree)
      _ ↔ s.Unique := cachedType_unique h.alloc rfl

theorem image2dF_sampimgT (s : TypeEmitter) :
    s.emitTypeImage2dF.2.ctx.ids .sampimgT = s.ctx.ids .sampimgT := by
  rw [emitTypeImage2dF]
  split_ifs
  · rfl
  · exact (ids_setId_of_ne _ (by decide) _).trans (cachedType_ids_of_ne s.alloc (by decide) _)

theorem sampledImage_cached (h : s.Cached) : s.emitTypeSampledImage.2.Cached := by
  rw [emitTypeSampledImage]
  split_ifs with hid
  · exact h
  · refine (image2dF_cached h.alloc).declared rfl ?_ h.next
    exact (image2dF_sampimgT s.alloc).trans (not_not.1 hid)

theorem sampledImage_unique (h : s.Cached) : s.emitTypeSampledImage.2.Unique ↔ s.Unique := by
  rw [emitTypeSampledImage]
  split_ifs with hid
  · exact Iff.rfl
  · have hfree : s.alloc.emitTypeImage2dF.2.ctx.ids .sampimgT = 0 :=
      (image2dF_sampimgT s.alloc).trans (not_not.1 hid)
    calc _ ↔ s.alloc.emitTypeImage2dF.2.Unique ∧ _ := unique_emit ..
      _ ↔ s.alloc.emitTypeImage2dF.2.Unique :=
        and_iff_left ((image2dF_cached h.alloc).fresh rfl hfree)
      _ ↔ s.Unique := image2dF_unique h.alloc

/- Function types. -/

/-- The id that void has, or gets when `next` is the next id. -/
def voidId (s : TypeEmitter) (next : Nat) : Nat :=
  if s.ctx.ids .void ≠ 0 then s.ctx.ids .void else next

/-- A function type is declared: `fns` or the field of the entry's holds it. -/
theorem Cached.function (h : s.Cached) {t : TypeEmitter} {r : Nat} {ps : List Nat}
    (hnext : t.nextId ≠ 0) (hshapes : t.shapes = s.shapes ++ [.function r ps])
    (hids : ∀ k, k ≠ .fnVoid → t.ctx.ids k = s.ctx.ids k)
    (hvecs : t.ctx.vecCache = s.ctx.vecCache)
    (hfns : ∀ r' ps', ((t.ctx.ids .fnVoid ≠ 0 ∧ r' = s.ctx.ids .void ∧ ps' = []) ∨
        ∃ o ∈ t.fns, s.retId o = r' ∧ o.params = ps') ↔
      ((s.ctx.ids .fnVoid ≠ 0 ∧ r' = s.ctx.ids .void ∧ ps' = []) ∨
        ∃ o ∈ s.fns, s.retId o = r' ∧ o.params = ps') ∨ (r' = r ∧ ps' = ps))
    (hvoid : s.ctx.ids .void = 0 → t.ctx.ids .fnVoid = 0 ∧ ∀ o ∈ t.fns, o.retSpv ≠ 0) :
    t.Cached := by
  have hv : t.ctx.ids .void = s.ctx.ids .void := hids _ (by decide)
  have hret : ∀ o, t.retId o = s.retId o := fun o => by rw [retId, retId, hv]
  have hold : ∀ y, y ≠ .function r ps → (y ∈ t.shapes ↔ y ∈ s.shapes) := by
    intro y hne
    rw [hshapes, List.mem_append, List.mem_singleton]
    exact or_iff_left hne
  refine ⟨hnext, ?_, ?_, ?_, ?_⟩
  · intro x hx k hk
    have hne : x ≠ .function r ps := by
      rintro rfl
      cases hk
    rw [hids k (by rintro rfl; exact slot_fields hk (by decide))]
    exact h.slots x ((hold x hne).1 hx) k hk
  · intro e l hmem
    rw [findVec, hvecs]
    exact h.vecs e l ((hold (.vector e l) nofun).1 hmem)
  · intro r' ps'
    simp only [hret, hv]
    rw [hfns, ← h.fns, hshapes, List.mem_append, List.mem_singleton, TypeShape.function.injEq]
  · rw [hv]
    exact hvoid

theorem cachedType_setId (s : TypeEmitter) {k k' : CacheSlot} (hne : k ≠ k') (x : TypeShape)
    (id : Nat) : (s.setId k' id).cachedType k x =
      ((s.cachedType k x).1, (s.cachedType k x).2.setId k' id) := by
  have hid : (s.setId k' id).ctx.ids k = s.ctx.ids k := ids_setId_of_ne s hne id
  rw [cachedType, cachedType, hid]
  split_ifs
  · rfl
  · simp only [declare, setId, emit, alloc, Function.update_comm hne]

theorem cachedType_ids (h : s.Cached) (k : CacheSlot) (x : TypeShape) :
    (s.cachedType k x).2.ctx.ids k = (s.cachedType k x).1 ∧ (s.cachedType k x).1 ≠ 0 := by
  rw [cachedType]
  split_ifs with hk
  · exact ⟨rfl, hk⟩
  · exact ⟨ids_setId_self .., h.next⟩

theorem cachedType_fns (s : TypeEmitter) (k : CacheSlot) (x : TypeShape) :
    (s.cachedType k x).2.fns = s.fns := by
  rw [cachedType]
  split_ifs
  · rfl
  · rfl

theorem functionVoid_eq (s : TypeEmitter) (h : s.ctx.ids .fnVoid = 0) :
    s.emitTypeFunctionVoid.2 = (s.alloc.emitTypeVoid.2.setId .fnVoid s.nextId).emit s.nextId
      (.function s.alloc.emitTypeVoid.1 []) := by
  rw [emitTypeFunctionVoid, if_neg (not_not.2 h)]
  simp only [emitTypeVoid, cachedType_setId s.alloc (show CacheSlot.void ≠ .fnVoid by decide)]

theorem functionVoid_cached (h : s.Cached) : s.emitTypeFunctionVoid.2.Cached := by
  by_cases hk : s.ctx.ids .fnVoid = 0
  · have hv : s.alloc.emitTypeVoid.2.Cached := cachedType_cached h.alloc rfl
    have hid := cachedType_ids h.alloc .void .void
    have hf : s.alloc.emitTypeVoid.2.ctx.ids .fnVoid = 0 :=
      (cachedType_ids_of_ne s.alloc (by decide) _).trans hk
    have hset : (s.alloc.emitTypeVoid.2.setId .fnVoid s.nextId).ctx.ids .fnVoid ≠ 0 := by
      rw [ids_setId_self]
      exact h.next
    rw [functionVoid_eq s hk]
    refine hv.function hv.next (shapes_emit ..) (fun k hne => ids_setId_of_ne _ hne _) rfl ?_ ?_
    · intro r ps
      simp only [ids_emit, hset, hf, ne_eq, not_true, not_false_iff, false_and, true_and, false_or]
      rw [or_comm, show s.alloc.emitTypeVoid.2.ctx.ids .void = s.alloc.emitTypeVoid.1 from hid.1]
      rfl
    · exact fun hz => absurd (hid.1.symm.trans hz) hid.2
  · rw [emitTypeFunctionVoid, if_pos hk]
    exact h

/-- The entry's function type is there, or no helper has it. -/
def FunctionVoidOk (s : TypeEmitter) : Prop :=
  s.ctx.ids .fnVoid ≠ 0 ∨
    ∀ o ∈ s.fns, o.params = [] → o.retSpv ≠ 0 ∧ o.retSpv ≠ s.voidId (s.nextId+1)

theorem functionVoid_unique (h : s.Cached) :
    s.emitTypeFunctionVoid.2.Unique ↔ s.Unique ∧ s.FunctionVoidOk := by
  by_cases hk : s.ctx.ids .fnVoid = 0
  · have hv : s.alloc.emitTypeVoid.2.Cached := cachedType_cached h.alloc rfl
    have hid := cachedType_ids h.alloc .void .void
    have hfst : s.alloc.emitTypeVoid.1 = s.voidId (s.nextId+1) := cachedType_fst ..
    have hf : s.alloc.emitTypeVoid.2.ctx.ids .fnVoid = 0 :=
      (cachedType_ids_of_ne s.alloc (by decide) _).trans hk
    have hfns : s.alloc.emitTypeVoid.2.fns = s.fns := cachedType_fns ..
    have hret : ∀ o, s.alloc.emitTypeVoid.2.retId o =
        if o.retSpv ≠ 0 then o.retSpv else s.alloc.emitTypeVoid.1 := by
      intro o
      rw [retId, show s.alloc.emitTypeVoid.2.ctx.ids .void = _ from hid.1]
      rfl
    have hmem : .function s.alloc.emitTypeVoid.1 [] ∉ s.alloc.emitTypeVoid.2.shapes ↔
        ∀ o ∈ s.fns, o.params = [] → o.retSpv ≠ 0 ∧ o.retSpv ≠ s.voidId (s.nextId+1) := by
      rw [hv.fns, hf, hfns, ← hfst]
      simp only [ne_eq, not_true, false_and, false_or, not_exists, not_and, hret]
      refine forall₂_congr fun o ho => ⟨fun himp hp => ?_, fun himp hr hp => ?_⟩
      · by_cases hz : o.retSpv = 0
        · rw [if_neg (not_not.2 hz)] at himp
          exact absurd hp (himp rfl)
        · rw [if_pos hz] at himp
          exact ⟨hz, fun heq => himp heq hp⟩
      · rw [if_pos (himp hp).1] at hr
        exact (himp hp).2 hr
    rw [functionVoid_eq s hk, FunctionVoidOk, or_iff_right (not_not.2 hk), ← hmem]
    calc _ ↔ (s.alloc.emitTypeVoid.2.setId .fnVoid s.nextId).Unique ∧ _ := unique_emit ..
      _ ↔ s.Unique ∧ _ := and_congr (cachedType_unique h.alloc rfl) Iff.rfl
  · rw [emitTypeFunctionVoid, if_pos hk, FunctionVoidOk]
    simp [hk]

theorem retType_cached (h : s.Cached) (r : Nat) : (s.retType r).2.Cached := by
  rw [retType]
  split_ifs
  · exact h
  · exact cachedType_cached h rfl

theorem retType_unique (h : s.Cached) (r : Nat) : (s.retType r).2.Unique ↔ s.Unique := by
  rw [retType]
  split_ifs
  · exact Iff.rfl
  · exact cachedType_unique h rfl

/-- The new helper returns what was asked for. -/
theorem retType_retId (h : s.Cached) (r fid : Nat) (ps : List Nat) :
    (s.retType r).2.retId ⟨fid, r, ps⟩ = (s.retType r).1 := by
  rw [retId, retType]
  split_ifs with hr
  · rfl
  · exact (cachedType_ids h .void .void).1

theorem retType_void (h : s.Cached) (r : Nat) (hz : (s.retType r).2.ctx.ids .void = 0) :
    r ≠ 0 := by
  rintro rfl
  have hid := cachedType_ids h .void .void
  exact hid.2 (hid.1.symm.trans hz)

theorem mem_fns_append {fns : List HelperFn} {P : HelperFn → Prop} {new : HelperFn} :
    (∃ o ∈ fns++[new], P o) ↔ (∃ o ∈ fns, P o) ∨ P new := by
  simp [or_and_right, exists_or]

theorem register_cached (h : s.Cached) (r : Nat) (ps : List Nat) :
    (s.helpersRegister r ps).Cached := by
  have hv := retType_cached h r
  have hnew := fun fid => retType_retId h r fid ps
  have hvoid : ∀ fid, (s.retType r).2.ctx.ids .void = 0 →
      (s.retType r).2.ctx.ids .fnVoid = 0 ∧
        ∀ o ∈ (s.retType r).2.fns++[⟨fid, r, ps⟩], o.retSpv ≠ 0 := by
    intro fid hz
    refine ⟨(hv.void hz).1, fun o ho => ?_⟩
    rw [List.mem_append, List.mem_singleton] at ho
    rcases ho with ho | rfl
    · exact (hv.void hz).2 o ho
    · exact retType_void h r hz
  have hadd : ∀ fid r' ps', (((s.retType r).2.ctx.ids .fnVoid ≠ 0 ∧
        r' = (s.retType r).2.ctx.ids .void ∧ ps' = []) ∨
        ∃ o ∈ (s.retType r).2.fns++[⟨fid, r, ps⟩],
          (s.retType r).2.retId o = r' ∧ o.params = ps') ↔
      (((s.retType r).2.ctx.ids .fnVoid ≠ 0 ∧ r' = (s.retType r).2.ctx.ids .void ∧ ps' = []) ∨
        ∃ o ∈ (s.retType r).2.fns, (s.retType r).2.retId o = r' ∧ o.params = ps') ∨
        (r' = (s.retType r).1 ∧ ps' = ps) := by
    intro fid r' ps'
    rw [mem_fns_append, hnew, or_assoc]
    exact or_congr Iff.rfl (or_congr Iff.rfl (and_congr eq_comm eq_comm))
  simp only [helpersRegister]
  split
  · rename_i o hfind
    have hsame := List.find?_some hfind
    have hmem := List.mem_of_find?_eq_some hfind
    refine ⟨Nat.succ_ne_zero _, hv.slots, hv.vecs, ?_, hvoid _⟩
    intro r' ps'
    refine (hv.fns r' ps').trans (((hadd o.fntyId r' ps').trans (or_iff_left_of_imp ?_)).symm)
    rintro ⟨rfl, rfl⟩
    exact .inr ⟨o, hmem, of_decide_eq_true hsame⟩
  · exact hv.function (Nat.succ_ne_zero _) (shapes_emit ..) (fun _ _ => rfl) rfl
      (hadd _) (hvoid _)

/-- The helper's type is not that of the entry, unless an earlier helper had it too. -/
def RegisterOk (s : TypeEmitter) (r : Nat) (ps : List Nat) : Prop :=
  s.ctx.ids .fnVoid = 0 ∨ ps ≠ [] ∨ (r ≠ 0 ∧ r ≠ s.ctx.ids .void) ∨
    ∃ o ∈ s.fns, s.retId o = s.ctx.ids .void ∧ o.params = []

theorem register_unique (h : s.Cached) (r : Nat) (ps : List Nat) :
    (s.helpersRegister r ps).Unique ↔ s.Unique ∧ s.RegisterOk r ps := by
  have hv := retType_cached h r
  have hu := retType_unique h r
  -- once the entry's type is there, so is void
  have hsame : s.ctx.ids .fnVoid ≠ 0 → s.ctx.ids .void ≠ 0 := fun hf hz => hf (h.void hz).1
  have hids : s.ctx.ids .fnVoid ≠ 0 → (s.retType r).2 = s ∧
      (s.retType r).1 = if r ≠ 0 then r else s.ctx.ids .void := by
    intro hf
    rw [retType]
    split_ifs with hr
    · exact ⟨rfl, rfl⟩
    · rw [emitTypeVoid, cachedType, if_pos (hsame hf)]
      exact ⟨rfl, rfl⟩
  have hfn : (s.retType r).2.ctx.ids .fnVoid = s.ctx.ids .fnVoid := by
    rw [retType]
    split_ifs
    · rfl
    · exact cachedType_ids_of_ne s (by decide) _
  simp only [helpersRegister]
  split
  · rename_i o hfind
    have hsame' := List.find?_some hfind
    obtain ⟨hret, hps⟩ := of_decide_eq_true hsame'
    have hmem := List.mem_of_find?_eq_some hfind
    refine hu.trans (iff_self_and.2 fun _ => ?_)
    rw [RegisterOk]
    by_cases hf : s.ctx.ids .fnVoid = 0
    · exact .inl hf
    · obtain ⟨hst, hfst⟩ := hids hf
      rw [hst] at hret hmem
      rw [hfst] at hret
      by_cases hp : ps = []
      · by_cases hr : r ≠ 0 ∧ r ≠ s.ctx.ids .void
        · exact .inr (.inr (.inl hr))
        · refine .inr (.inr (.inr ⟨o, hmem, hret.trans ?_, hps.trans hp⟩))
          split_ifs with hz
          · exact not_not.1 fun hne => hr ⟨hz, hne⟩
          · rfl
      · exact .inr (.inl hp)
  · rename_i hfind
    have hnone := List.find?_eq_none.1 hfind
    have hdecl : .function (s.retType r).1 ps ∉ (s.retType r).2.shapes ↔ s.RegisterOk r ps := by
      have hno : ¬∃ o ∈ (s.retType r).2.fns,
          (s.retType r).2.retId o = (s.retType r).1 ∧ o.params = ps := by
        rintro ⟨o, ho, heq⟩
        exact hnone o ho (decide_eq_true heq)
      rw [hv.fns, or_iff_left hno, hfn, RegisterOk]
      by_cases hf : s.ctx.ids .fnVoid = 0
      · simp [hf]
      · obtain ⟨hst, hfst⟩ := hids hf
        rw [hst, hfst] at hno
        rw [hst, hfst]
        by_cases hp : ps = []
        · subst hp
          by_cases hr : r = 0
          · rw [if_neg (not_not.2 hr)] at hno ⊢
            simp [hf, hr, hno]
          · rw [if_pos hr] at hno ⊢
            by_cases hrv : r = s.ctx.ids .void
            · rw [← hrv]
              simp [hf, hno]
            · simp [hf, hr, hrv]
        · simp [hp]
    exact (unique_emit (s.retType r).2.alloc _ _).trans (and_congr hu hdecl)

/- Contexts. -/

theorem enterHelper_cached (h : s.Cached) : s.enterHelper.Cached := by
  rw [enterHelper]
  split
  · exact h
  · exact ⟨h.next, h.slots, h.vecs, h.fns, h.void⟩

theorem leaveHelper_cached (h : s.Cached) : s.leaveHelper.Cached := by
  rw [leaveHelper]
  split
  · exact ⟨h.next, h.slots, h.vecs, h.fns, h.void⟩
  · exact h

theorem enterHelper_decls (s : TypeEmitter) : s.enterHelper.decls = s.decls := by
  rw [enterHelper]
  split
  · rfl
  · rfl

theorem leaveHelper_decls (s : TypeEmitter) : s.leaveHelper.decls = s.decls := by
  rw [leaveHelper]
  split
  · rfl
  · rfl

theorem pointer_cached (h : s.Cached) (p c : Nat) : (s.emitTypePointer p c).2.Cached := by
  simp only [emitTypePointer]
  split
  · exact h
  · split_ifs
    · exact ⟨Nat.succ_ne_zero _, h.slots, h.vecs, h.fns, h.void⟩
    · exact h.alloc

theorem pointer_decls (s : TypeEmitter) (p c : Nat) :
    (s.emitTypePointer p c).2.decls = s.decls := by
  simp only [emitTypePointer]
  split
  · rfl
  · split_ifs
    · rfl
    · rfl

theorem unique_congr {t : TypeEmitter} (h : t.decls = s.decls) : t.Unique ↔ s.Unique := by
  rw [Unique, Unique, h]

/-- What a step may not ask for. -/
def StepOk (s : TypeEmitter) : TypeOp → Prop
  | .int width sign => s.IntOk width sign
  | .vec elem lanes => s.VecOk elem lanes
  | .vec2F => s.VecFOk .vec2F 2
  | .vec3F => s.VecFOk .vec3F 3
  | .vec4F => s.VecFOk .vec4F 4
  | .airVector elem lanes => s.AirVectorOk elem lanes
  | .functionVoid => s.FunctionVoidOk
  | .register retSpv params => s.RegisterOk retSpv params
  | _ => True

theorem step_cached (h : s.Cached) (op : TypeOp) : (s.step op).Cached := by
  cases op with
  | float32 => exact cachedType_cached h rfl
  | half => exact cachedType_cached h rfl
  | bool => exact cachedType_cached h rfl
  | void => exact cachedType_cached h rfl
  | sampler => exact cachedType_cached h rfl
  | int width sign => exact intW_cached h width sign
  | vec elem lanes => exact vec_cached h elem lanes
  | vec2F => exact vecF_cached h (by decide) (by decide) 2
  | vec3F => exact vecF_cached h (by decide) (by decide) 3
  | vec4F => exact vecF_cached h (by decide) (by decide) 4
  | functionVoid => exact functionVoid_cached h
  | image2dF => exact image2dF_cached h
  | sampledImage => exact sampledImage_cached h
  | pointer p c => exact pointer_cached h p c
  | airVector elem lanes => exact airVector_cached h elem lanes
  | alloc => exact h.alloc
  | memo idx id => exact ⟨h.next, h.slots, h.vecs, h.fns, h.void⟩
  | register r ps => exact register_cached h r ps
  | enterHelper => exact enterHelper_cached h
  | leaveHelper => exact leaveHelper_cached h

theorem step_unique (h : s.Cached) (op : TypeOp) :
    (s.step op).Unique ↔ s.Unique ∧ s.StepOk op := by
  cases op with
  | float32 => exact (cachedType_unique h rfl).trans (and_iff_left trivial).symm
  | half => exact (cachedType_unique h rfl).trans (and_iff_left trivial).symm
  | bool => exact (cachedType_unique h rfl).trans (and_iff_left trivial).symm
  | void => exact (cachedType_unique h rfl).trans (and_iff_left trivial).symm
  | sampler => exact (cachedType_unique h rfl).trans (and_iff_left trivial).symm
  | int width sign => exact intW_unique h width sign
  | vec elem lanes => exact vec_unique h elem lanes
  | vec2F => exact vecF_unique h .vec2F 2
  | vec3F => exact vecF_unique h .vec3F 3
  | vec4F => exact vecF_unique h .vec4F 4
  | functionVoid => exact functionVoid_unique h
  | image2dF => exact (image2dF_unique h).trans (and_iff_left trivial).symm
  | sampledImage => exact (sampledImage_unique h).trans (and_iff_left trivial).symm
  | pointer p c => exact (unique_congr (pointer_decls s p c)).trans (and_iff_left trivial).symm
  | airVector elem lanes => exact airVector_unique h elem lanes
  | alloc => exact (and_iff_left trivial).symm
  | memo idx id => exact (and_iff_left trivial).symm
  | register r ps => exact register_unique h r ps
  | enterHelper => exact (unique_congr (enterHelper_decls s)).trans (and_iff_left trivial).symm
  | leaveHelper => exact (unique_congr (leaveHelper_decls s)).trans (and_iff_left trivial).symm

theorem start_cached : Cached {} where
  next := Nat.one_ne_zero
  slots := nofun
  vecs := nofun
  fns r ps := by simp [shapes]
  void _ := ⟨rfl, nofun⟩

end TypeEmitter

/-- Whatever the translator asks for, in the contexts of the entry and of helpers: every type
it declared is declared once all the way, if and only if no step asks again for an integer of
an odd width, for a vector that found the cache full, or for `void ()` both as the entry's
type and as a helper's. -/
theorem types_unique_iff (ops : List TypeOp) :
    (∀ s ∈ visited TypeEmitter.step {} ops, s.Unique) ↔
      AllSteps TypeEmitter.step TypeEmitter.StepOk {} ops := by
  have hunique : ∀ s : TypeEmitter, s.Cached ∧ s.Unique → s.Unique := fun _ => And.right
  refine visited_iff TypeEmitter.step hunique (fun s op h => ?_) (fun s op h hok => ?_) ops {}
    ⟨TypeEmitter.start_cached, List.nodup_nil⟩
  · exact (TypeEmitter.step_unique h.1 op).trans (and_iff_right h.2)
  · exact ⟨TypeEmitter.step_cached h.1 op, (TypeEmitter.step_unique h.1 op).2 ⟨h.2, hok⟩⟩

instance (s : TypeEmitter) : Decidable s.Unique := inferInstanceAs (Decidable (List.Nodup _))

/- `void g()` is a helper; the entry's `void main()` comes after it. -/
def voidHelperOps : List TypeOp := [.register 0 [], .enterHelper, .leaveHelper, .functionVoid]

/- Vectors of 34 sizes of float, the last one asked for again. -/
def manyVectorOps : List TypeOp :=
  .float32 :: (List.range 34).map (fun n => .vec 1 (n+2)) ++ [.vec 1 35]

/- Two entries of the type table for an integer of 24 bits. -/
def oddIntOps : List TypeOp := [.int 24 0, .memo 0 1, .int 24 0, .memo 1 2]

/-- A helper without parameters and result, more vectors than the cache takes, and an odd
width: each is declared twice. -/
theorem types_repeated : ¬(∀ s ∈ visited TypeEmitter.step {} voidHelperOps, s.Unique) ∧
    ¬(∀ s ∈ visited TypeEmitter.step {} manyVectorOps, s.Unique) ∧
    ¬(∀ s ∈ visited TypeEmitter.step {} oddIntOps, s.Unique) := by
  refine ⟨?_, ?_, ?_⟩
  · decide
  · decide
  · decide

/- The types of the module are declared by such steps too. -/

def TypeEmitter.run (s : TypeEmitter) (ops : List TypeOp) : TypeEmitter :=
  ops.foldl TypeEmitter.step s

theorem run_append (s : TypeEmitter) (ops ops' : List TypeOp) :
    s.run (ops++ops') = (s.run ops).run ops' := List.foldl_append

theorem foldlM_run {f : TypeEmitter → Nat → Option TypeEmitter}
    (hf : ∀ s x t, f s x = some t → ∃ ops, s.run ops = t) (xs : List Nat) (s t : TypeEmitter)
    (h : xs.foldlM f s = some t) : ∃ ops, s.run ops = t := by
  induction xs generalizing s with
  | nil =>
    cases h
    exact ⟨[], rfl⟩
  | cons x xs ih =>
    rw [List.foldlM_cons] at h
    obtain ⟨u, hu, ht⟩ := Option.bind_eq_some_iff.1 h
    obtain ⟨ops, rfl⟩ := hf s x u hu
    obtain ⟨ops', rfl⟩ := ih _ ht
    exact ⟨ops++ops', run_append ..⟩

/-- `emit_air_type` is a run of steps, so that what holds of every run holds of it. -/
theorem emitAirType_run (types : List XlateType) (fuel idx : Nat) (s t : TypeEmitter) (id : Nat)
    (h : emitAirType types fuel idx s = some (id, t)) : ∃ ops, s.run ops = t := by
  induction fuel generalizing idx s t id with
  | zero => cases h
  | succ fuel ih =>
    have hleaf : ∀ {r : Nat × TypeEmitter} {out : Nat} {u : TypeEmitter},
        some r = some (out, u) → r.2 = u := fun h => congrArg Prod.snd (Option.some.inj h)
    rw [emitAirType] at h
    by_cases hbool : idx = airTypeBool
    · rw [if_pos hbool] at h
      exact ⟨[.bool], hleaf h⟩
    rw [if_neg hbool] at h
    cases hty : types[idx]? with
    | none =>
      rw [hty] at h
      exact ⟨[.int 32 0], hleaf h⟩
    | some ty =>
      rw [hty] at h
      by_cases hmemo : s.spvTypeIds idx ≠ 0
      · simp only [if_pos hmemo] at h
        exact ⟨[], hleaf h⟩
      simp only [if_neg hmemo] at h
      obtain ⟨⟨out, u⟩, hout, hr⟩ := Option.map_eq_some_iff.1 h
      cases hr
      have hinner : ∀ {inner : Nat} {f : Nat × TypeEmitter → Nat × TypeEmitter}
          (op : Nat × TypeEmitter → List TypeOp), (∀ e, e.2.run (op e) = (f e).2) →
          (emitAirType types fuel inner s).map f = some (out, u) → ∃ ops, s.run ops = u := by
        intro inner f op hop hmap
        obtain ⟨⟨i, v⟩, hi, hf⟩ := Option.map_eq_some_iff.1 hmap
        obtain ⟨ops, rfl⟩ := ih inner s v i hi
        refine ⟨ops ++ op (i, s.run ops), ?_⟩
        rw [run_append, hop (i, s.run ops), hf]
      have hstruct : ∀ fields : List Nat, ((fields.foldlM (fun s field =>
          (emitAirType types fuel field s).map Prod.snd) s).map fun s => (s.nextId, s.alloc)) =
          some (out, u) → ∃ ops, s.run ops = u := by
        intro fields hmap
        obtain ⟨v, hv, hf⟩ := Option.map_eq_some_iff.1 hmap
        cases hf
        obtain ⟨ops, rfl⟩ := foldlM_run (fun s x t hst => by
          obtain ⟨⟨i, w⟩, hi, rfl⟩ := Option.map_eq_some_iff.1 hst
          exact ih x s w i hi) fields s v hv
        exact ⟨ops++[.alloc], run_append ..⟩
      have hafter : ∃ ops, s.run ops = u := by
        cases hkind : ty.kind <;> rw [hkind] at hout
        case void => exact ⟨[.void], hleaf hout⟩
        case float => exact ⟨[.float32], hleaf hout⟩
        case half => exact ⟨[.half], hleaf hout⟩
        case integer => exact ⟨[.int _ 0], hleaf hout⟩
        case vector =>
          exact hinner (fun e => [.airVector e.1 (ty.op.getD 0 4)]) (fun _ => rfl) hout
        case pointer =>
          exact hinner (fun _ => [.pointer (ty.op.getD 0 0) storageFunction])
            (fun _ => rfl) hout
        case array => exact hinner (fun _ => [.int 32 0, .alloc, .alloc]) (fun _ => rfl) hout
        case structAnon => exact hstruct _ hout
        case structNamed => exact hstruct _ hout
        all_goals exact ⟨[.int 32 0], hleaf hout⟩
      obtain ⟨ops, rfl⟩ := hafter
      exact ⟨ops++[.memo idx out], run_append ..⟩

end Lagfx
