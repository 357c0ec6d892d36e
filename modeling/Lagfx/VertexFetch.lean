import Mathlib.Algebra.Order.BigOperators.Group.List
import Lagfx.PipelineCache

/-! What a vertex-input draw fetches: the stride and the attributes written into its
pipeline, and the number of vertices it is submitted with. -/
namespace Lagfx

/-- The formats an attribute can get. -/
inductive VkVertexFormat where
  | r32Sfloat
  | r32g32Sfloat
  | r32g32b32Sfloat
  | r32g32b32a32Sfloat
  | r8g8b8a8Uint
  | b8g8r8a8Unorm
  | r32Uint
deriving DecidableEq, Repr

def VkVertexFormat.bytes : VkVertexFormat → Nat
  | .r32Sfloat | .r8g8b8a8Uint | .b8g8r8a8Unorm | .r32Uint => 4
  | .r32g32Sfloat => 8
  | .r32g32b32Sfloat => 12
  | .r32g32b32a32Sfloat => 16

/-- The MTLVertexFormat values that are decoded. -/
def mtlVertexFormat : Nat → Option VkVertexFormat
  | 3 => some .r8g8b8a8Uint
  | 9 | 52 => some .b8g8r8a8Unorm
  | 28 => some .r32Sfloat
  | 29 => some .r32g32Sfloat
  | 30 => some .r32g32b32Sfloat
  | 31 => some .r32g32b32a32Sfloat
  | 37 => some .r32Uint
  | _ => none

def clampComp (c : Nat) : Nat := min (max c 1) 4

def floatFormat (c : Nat) : VkVertexFormat :=
  match clampComp c with
  | 1 => .r32Sfloat
  | 2 => .r32g32Sfloat
  | 3 => .r32g32b32Sfloat
  | _ => .r32g32b32a32Sfloat

/-- VkVertexInputAttributeDescription. -/
structure VertexAttr where
  location : Nat
  format : VkVertexFormat
  offset : Nat
deriving DecidableEq, Repr

/-- The attributes one behind the other, as reflected. -/
def packedAttrs : Nat → List (Nat × Nat) → List VertexAttr
  | _, [] => []
  | off, a :: as => ⟨a.1, floatFormat a.2, off⟩ :: packedAttrs (off+clampComp a.2*4) as

/-- The attributes by the formats and offsets of the descriptor, matched by order. -/
def decodedAttrs : List (Nat × Nat) → List (Nat × Nat) → Option (List VertexAttr)
  | [], _ => some []
  | _ :: _, [] => none
  | a :: as, p :: ps =>
    (mtlVertexFormat p.1).bind fun fmt => (decodedAttrs as ps).map (⟨a.1, fmt, p.2⟩ :: ·)

def PipelineDesc.inputs (desc : PipelineDesc) : List (Nat × Nat) := desc.vtxInputs.take 8

/-- The descriptor's attributes where all of them are known, else the reflected ones. -/
def PipelineDesc.vertexAttrs (desc : PipelineDesc) : List VertexAttr :=
  (decodedAttrs desc.inputs desc.psoAttrs).getD (packedAttrs 0 desc.inputs)

/-- The stride of binding 0: the descriptor's where sane, else the rounded extent. -/
def PipelineDesc.vertexStride (desc : PipelineDesc) : Nat :=
  let off := (desc.inputs.map fun a => clampComp a.2*4).sum
  if off ≤ desc.vtxStride ∧ desc.vtxStride ≤ 256 then desc.vtxStride else round8 off

/-- The stride the draw site caps the count with: the extent is not rounded. -/
def capStride (pp : PendingPipeline) : Nat :=
  let sum := (attrSizes pp).sum
  let stride := if sum ≤ pp.vtxStride ∧ pp.vtxStride ≤ 256 then pp.vtxStride else sum
  if stride = 0 then 16 else stride

/-- A vertex-input draw: its count, and the vertex input of its pipeline. -/
structure VertexDraw where
  vc : Nat
  stride : Nat
  attrs : List VertexAttr
  vbufSize : Nat
deriving DecidableEq, Repr

/-- What lagfx_emit_pending_draw submits when it has uploaded a vertex buffer. -/
def vertexDraw (d : DrawState) (count : Nat) : VertexDraw where
  vc := min (if count = 0 then 3 else count) (drawDsBufSz/capStride d.pendingPipeline)
  stride := (pipelineDesc d).vertexStride
  attrs := (pipelineDesc d).vertexAttrs
  vbufSize := drawDsBufSz

/-- Every attribute of every vertex lies in the buffer. -/
def VertexDraw.Within (v : VertexDraw) : Prop :=
  ∀ i < v.vc, ∀ a ∈ v.attrs, i*v.stride+a.offset+a.format.bytes ≤ v.vbufSize

/-- The end of the last attribute of a vertex. -/
def attrExtent (attrs : List VertexAttr) : Nat :=
  attrs.foldr (fun a n => max (a.offset+a.format.bytes) n) 0

theorem attrExtent_le_iff {n : Nat} (attrs : List VertexAttr) :
    attrExtent attrs ≤ n ↔ ∀ a ∈ attrs, a.offset+a.format.bytes ≤ n := by
  induction attrs with
  | nil => simp [attrExtent]
  | cons a as ih =>
    rw [List.forall_mem_cons, ← ih]
    exact max_le_iff

/-- The last vertex reaches furthest. -/
theorem within_iff_last (v : VertexDraw) (hne : v.attrs ≠ []) :
    v.Within ↔ v.vc = 0 ∨ (v.vc-1)*v.stride+attrExtent v.attrs ≤ v.vbufSize := by
  have hlast : ∀ i, (∀ a ∈ v.attrs, i*v.stride+a.offset+a.format.bytes ≤ v.vbufSize) ↔
      i*v.stride+attrExtent v.attrs ≤ v.vbufSize := by
    intro i
    constructor
    · intro h
      obtain ⟨b, hb⟩ := List.exists_mem_of_ne_nil v.attrs hne
      have hi := h b hb
      have hext : attrExtent v.attrs ≤ v.vbufSize-i*v.stride := by
        rw [attrExtent_le_iff]
        intro a ha
        have := h a ha
        omega
      omega
    · intro h a ha
      have hext := (attrExtent_le_iff v.attrs).1 le_rfl a ha
      omega
  constructor
  · intro h
    by_cases hz : v.vc = 0
    · exact .inl hz
    · exact .inr ((hlast (v.vc-1)).1 (h (v.vc-1) (by omega)))
  · intro h i hi
    rw [hlast]
    obtain hz | h := h
    · omega
    · have hmul : i*v.stride ≤ (v.vc-1)*v.stride := Nat.mul_le_mul_right _ (by omega)
      omega

/-- A pipeline with one to eight reflected inputs of one to four components. -/
structure PendingPipeline.VertexInputs (pp : PendingPipeline) : Prop where
  translated : pp.translated = true
  some_input : pp.vtxInputs ≠ []
  at_most : pp.vtxInputs.length ≤ 8
  comps : ∀ a ∈ pp.vtxInputs, 1 ≤ a.2 ∧ a.2 ≤ 4

/-- The bytes of a vertex as reflected. -/
def reflectedExtent (pp : PendingPipeline) : Nat := (pp.vtxInputs.map fun a => a.2*4).sum

/-- The stride decoded from the descriptor covers the reflected bytes and is at most 256. -/
def SaneStride (pp : PendingPipeline) : Prop :=
  reflectedExtent pp ≤ pp.vtxStride ∧ pp.vtxStride ≤ 256

instance (pp : PendingPipeline) : Decidable (SaneStride pp) := inferInstanceAs (Decidable (_ ∧ _))

/-- How far a vertex reaches: by the decoded attributes where they are used. -/
def vertexReach (pp : PendingPipeline) : Nat :=
  match decodedAttrs pp.vtxInputs (psoAttrsOf pp) with
  | some attrs => attrExtent attrs
  | none => reflectedExtent pp

/- The count is capped by the decoded stride where it is sane, else by the reflected bytes;
   the vertices lie apart by the decoded stride only when the streams are not separate,
   and else by the reflected bytes rounded up. -/
def FetchFits (d : DrawState) (count : Nat) : Prop :=
  let pp := d.pendingPipeline
  let cap := if SaneStride pp then pp.vtxStride else reflectedExtent pp
  let stride := if SaneStride pp ∧ vtxMultiStream d = false then pp.vtxStride
    else round8 (reflectedExtent pp)
  let n := min (if count = 0 then 3 else count) (drawDsBufSz/cap)
  (n-1)*stride+vertexReach pp ≤ drawDsBufSz

theorem floatFormat_bytes (c : Nat) : (floatFormat c).bytes = clampComp c*4 := by
  have hc : clampComp c = 1 ∨ clampComp c = 2 ∨ clampComp c = 3 ∨ clampComp c = 4 := by
    rw [clampComp]
    omega
  rw [floatFormat]
  obtain h | h | h | h := hc <;> rw [h] <;> rfl

theorem packedAttrs_extent {l : List (Nat × Nat)} (hne : l ≠ []) (off : Nat) :
    attrExtent (packedAttrs off l) = off+(l.map fun a => clampComp a.2*4).sum := by
  induction l generalizing off with
  | nil => exact absurd rfl hne
  | cons a as ih =>
    have hcons : attrExtent (packedAttrs off (a :: as)) =
        max (off+clampComp a.2*4) (attrExtent (packedAttrs (off+clampComp a.2*4) as)) := by
      rw [packedAttrs, attrExtent, List.foldr_cons, floatFormat_bytes]
      rfl
    rw [hcons, List.map_cons, List.sum_cons]
    cases as with
    | nil => simp [packedAttrs, attrExtent]
    | cons b bs =>
      rw [ih (by simp)]
      omega

section domain
variable {d : DrawState}

theorem PendingPipeline.VertexInputs.clamp {pp : PendingPipeline} (h : pp.VertexInputs) :
    (pp.vtxInputs.map fun a => clampComp a.2*4) = pp.vtxInputs.map fun a => a.2*4 := by
  refine List.map_congr_left fun a ha => ?_
  obtain ⟨hlo, hhi⟩ := h.comps a ha
  rw [clampComp]
  omega

theorem PendingPipeline.VertexInputs.extent_pos {pp : PendingPipeline} (h : pp.VertexInputs) :
    0 < reflectedExtent pp := by
  obtain ⟨a, ha⟩ := List.exists_mem_of_ne_nil _ h.some_input
  have hle := List.single_le_sum (fun x _ => Nat.zero_le x) (a.2*4)
    (List.mem_map_of_mem (f := fun a : Nat × Nat => a.2*4) ha)
  have hpos := (h.comps a ha).1
  rw [reflectedExtent]
  omega

/-- At most eight inputs of sixteen bytes. -/
theorem PendingPipeline.VertexInputs.extent_le {pp : PendingPipeline} (h : pp.VertexInputs) :
    reflectedExtent pp ≤ 128 := by
  have hle : ∀ x ∈ pp.vtxInputs.map (fun a => a.2*4), x ≤ 16 := by
    intro x hx
    obtain ⟨a, ha, rfl⟩ := List.mem_map.mp hx
    have := (h.comps a ha).2
    omega
  calc reflectedExtent pp
      ≤ (pp.vtxInputs.map fun a => a.2*4).length*16 := List.sum_le_card_nsmul _ _ hle
    _ = pp.vtxInputs.length*16 := by rw [List.length_map]
    _ ≤ 8*16 := Nat.mul_le_mul_right 16 h.at_most

theorem PendingPipeline.VertexInputs.attrSizes_sum {pp : PendingPipeline} (h : pp.VertexInputs) :
    (attrSizes pp).sum = reflectedExtent pp := by
  have htake : pp.vtxInputs.take maxVtxInputs = pp.vtxInputs := List.take_of_length_le h.at_most
  rw [attrSizes, htake, reflectedExtent]

theorem PendingPipeline.VertexInputs.capStride {pp : PendingPipeline} (h : pp.VertexInputs) :
    capStride pp = if SaneStride pp then pp.vtxStride else reflectedExtent pp := by
  have hpos := h.extent_pos
  have hstride : Lagfx.capStride pp =
      if (if SaneStride pp then pp.vtxStride else reflectedExtent pp) = 0 then 16
      else if SaneStride pp then pp.vtxStride else reflectedExtent pp := by
    simp only [Lagfx.capStride, h.attrSizes_sum]
    rfl
  rw [hstride]
  by_cases hs : SaneStride pp
  · have hle := hs.1
    rw [if_pos hs, if_neg (by omega)]
  · rw [if_neg hs, if_neg (by omega)]

theorem PendingPipeline.VertexInputs.inputs (h : d.pendingPipeline.VertexInputs) :
    (pipelineDesc d).inputs = d.pendingPipeline.vtxInputs := by
  have hon : d.pendingPipeline.vtxInputOn := ⟨h.translated, h.some_input⟩
  simp only [PipelineDesc.inputs, pipelineDesc, if_pos hon]
  exact List.take_of_length_le h.at_most

theorem PendingPipeline.VertexInputs.stride (h : d.pendingPipeline.VertexInputs) :
    (pipelineDesc d).vertexStride =
      if SaneStride d.pendingPipeline ∧ vtxMultiStream d = false then d.pendingPipeline.vtxStride
      else round8 (reflectedExtent d.pendingPipeline) := by
  have hon : d.pendingPipeline.vtxInputOn := ⟨h.translated, h.some_input⟩
  have hpos := h.extent_pos
  have hstride : (pipelineDesc d).vtxStride =
      if vtxMultiStream d = true then 0 else d.pendingPipeline.vtxStride := if_pos hon
  simp only [PipelineDesc.vertexStride, h.inputs, h.clamp, hstride]
  cases hm : vtxMultiStream d with
  | true =>
    rw [if_pos rfl, if_neg, if_neg (by simp)]
    · rfl
    · rw [reflectedExtent] at hpos
      omega
  | false =>
    simp only [Bool.false_eq_true, if_false, and_true]
    rfl

theorem PendingPipeline.VertexInputs.extent (h : d.pendingPipeline.VertexInputs) :
    attrExtent (pipelineDesc d).vertexAttrs = vertexReach d.pendingPipeline := by
  have hon : d.pendingPipeline.vtxInputOn := ⟨h.translated, h.some_input⟩
  have hpso : (pipelineDesc d).psoAttrs = psoAttrsOf d.pendingPipeline := if_pos hon
  rw [PipelineDesc.vertexAttrs, vertexReach, h.inputs, hpso]
  cases decodedAttrs d.pendingPipeline.vtxInputs (psoAttrsOf d.pendingPipeline) with
  | some attrs => rfl
  | none =>
    rw [Option.getD_none, packedAttrs_extent h.some_input, h.clamp, zero_add]
    rfl

theorem PendingPipeline.VertexInputs.attrs_ne (h : d.pendingPipeline.VertexInputs) :
    (pipelineDesc d).vertexAttrs ≠ [] := by
  intro hnil
  rw [PipelineDesc.vertexAttrs, h.inputs] at hnil
  obtain ⟨a, as, hcons⟩ := List.exists_cons_of_ne_nil h.some_input
  rw [hcons] at hnil
  cases hdec : decodedAttrs (a :: as) (pipelineDesc d).psoAttrs with
  | none =>
    rw [hdec] at hnil
    exact absurd hnil (by simp [packedAttrs])
  | some attrs =>
    rw [hdec, Option.getD_some] at hnil
    subst hnil
    cases hps : (pipelineDesc d).psoAttrs with
    | nil => simp [hps, decodedAttrs] at hdec
    | cons p ps =>
      rw [hps, decodedAttrs] at hdec
      obtain ⟨fmt, -, hrest⟩ := Option.bind_eq_some_iff.mp hdec
      obtain ⟨rest, -, hcontra⟩ := Option.map_eq_some_iff.mp hrest
      exact absurd hcontra (by simp)

end domain

/-- A draw stays inside its vertex buffer exactly when its capped count fits at the stride
of its pipeline. -/
theorem fetch_within_iff (d : DrawState) (count : Nat) (h : d.pendingPipeline.VertexInputs) :
    (vertexDraw d count).Within ↔ FetchFits d count := by
  rw [within_iff_last _ h.attrs_ne]
  have hcap : 0 < capStride d.pendingPipeline ∧ capStride d.pendingPipeline ≤ 256 := by
    have hpos := h.extent_pos
    have hle := h.extent_le
    rw [h.capStride]
    by_cases hs : SaneStride d.pendingPipeline
    · rw [if_pos hs]
      exact ⟨hpos.trans_le hs.1, hs.2⟩
    · rw [if_neg hs]
      omega
  have hvc : (vertexDraw d count).vc ≠ 0 := by
    have hroom : 256 ≤ drawDsBufSz/capStride d.pendingPipeline := by
      rw [Nat.le_div_iff_mul_le hcap.1, drawDsBufSz]
      omega
    simp only [vertexDraw]
    split_ifs <;> omega
  rw [or_iff_right hvc]
  simp only [FetchFits, vertexDraw, h.stride, h.extent, h.capStride]

/-- Vertices at the stride they are capped with fit when none reaches past its stride. -/
theorem capped_fits (count stride reach size : Nat) (hr : reach ≤ stride) (hs : 0 < stride)
    (hsize : stride ≤ size) : (min count (size/stride)-1)*stride+reach ≤ size := by
  have hroom : 1 ≤ size/stride := (Nat.le_div_iff_mul_le hs).2 (by omega)
  have hmul : size/stride*stride ≤ size := Nat.div_mul_le_self size stride
  have hle : (min count (size/stride)-1)*stride ≤ (size/stride-1)*stride :=
    Nat.mul_le_mul_right stride (by omega)
  rw [Nat.sub_mul (size/stride), one_mul] at hle
  have hone : stride ≤ size/stride*stride := Nat.le_mul_of_pos_left stride hroom
  omega

/-- With a sane stride and one stream, attributes inside the stride are safe at any count. -/
theorem sane_stride_within {d : DrawState} (h : d.pendingPipeline.VertexInputs)
    (hs : SaneStride d.pendingPipeline) (hm : vtxMultiStream d = false)
    (hr : vertexReach d.pendingPipeline ≤ d.pendingPipeline.vtxStride) (count : Nat) :
    (vertexDraw d count).Within := by
  rw [fetch_within_iff d count h]
  simp only [FetchFits, if_pos hs, if_pos (And.intro hs hm)]
  have hpos := h.extent_pos.trans_le hs.1
  exact capped_fits _ _ _ _ hr hpos (hs.2.trans (by decide))

/-- Without one, so are reflected attributes whose bytes need no rounding. -/
theorem packed_within {d : DrawState} (h : d.pendingPipeline.VertexInputs)
    (hs : ¬ SaneStride d.pendingPipeline)
    (hr : vertexReach d.pendingPipeline ≤ reflectedExtent d.pendingPipeline)
    (h8 : 8 ∣ reflectedExtent d.pendingPipeline) (count : Nat) :
    (vertexDraw d count).Within := by
  rw [fetch_within_iff d count h]
  have hround : round8 (reflectedExtent d.pendingPipeline) = reflectedExtent d.pendingPipeline := by
    rw [round8]
    omega
  simp only [FetchFits, if_neg hs, if_neg (fun hc => hs (And.left hc)), hround]
  exact capped_fits _ _ _ _ hr h.extent_pos (h.extent_le.trans (by decide))

/-- A translated pipeline with these reflected inputs and no decoded layout. -/
def reflectedOnly (inputs : List (Nat × Nat)) : DrawState :=
  { pendingPipeline := { valid := true, translated := true, vtxInputs := inputs } }

theorem two_float2_within : (vertexDraw (reflectedOnly [(0, 2), (1, 2)]) 100000).Within :=
  (fetch_within_iff (reflectedOnly [(0, 2), (1, 2)]) 100000
    ⟨rfl, by decide, by decide, by decide⟩).2 (by rw [FetchFits]; decide)

/-- Twenty bytes a vertex are capped by 20 and lie apart by 24. -/
theorem twenty_bytes_outside :
    ¬ (vertexDraw (reflectedOnly [(0, 2), (1, 2), (2, 1)]) 4000).Within := by
  intro h
  have hlast := h 3275 (by decide) ⟨2, .r32Sfloat, 16⟩ (by decide)
  exact absurd hlast (by decide)

end Lagfx
