import Lagfx.VertexFetch
import Lagfx.VertexStaging

/-! The vertices that a draw submits, against those its command names. The debug variables of
the environment are unset. -/
namespace Lagfx
open ByteMemory Concat

/-- The draw commands that are emitted. -/
inductive DrawOp where
  | drawPrimitives16
  | drawInstancedPrimitives16
  | drawIndexedPrimitives64
  | drawIndexedPrimitives16
deriving DecidableEq, Repr

namespace DrawOp

def handler : DrawOp → ComputeInnerOp
  | drawPrimitives16 => opDrawPrimitives16
  | drawInstancedPrimitives16 => opDrawInstancedPrimitives16
  | drawIndexedPrimitives64 => opDrawIndexedPrimitives64
  | drawIndexedPrimitives16 => opDrawIndexedPrimitives16

/-- The entry as the handler emits it. -/
def record (op : DrawOp) (body : List UInt8) (d : DrawState) : DrawState :=
  op.handler.effect {} body {} d

/- What the guest names in its command. -/

def indexed : DrawOp → Bool
  | drawPrimitives16 => false
  | drawInstancedPrimitives16 => false
  | drawIndexedPrimitives64 => true
  | drawIndexedPrimitives16 => true

def count (body : List UInt8) : DrawOp → Nat
  | drawPrimitives16 => le16 body 6
  | drawInstancedPrimitives16 => le16 body 2
  | drawIndexedPrimitives64 => le32 body 0
  | drawIndexedPrimitives16 => le16 body 8

def vertexStart (body : List UInt8) : DrawOp → Nat
  | drawPrimitives16 => le16 body 4
  | drawInstancedPrimitives16 => le16 body 0
  | _ => 0

def instances (body : List UInt8) : DrawOp → Nat
  | drawInstancedPrimitives16 => le16 body 4
  | _ => 1

/-- Type, buffer and offset of the index list. -/
def indexSource (body : List UInt8) : DrawOp → Nat × Nat × Nat
  | drawIndexedPrimitives64 => (le32 body 4, le32 body 8, le64 body 12)
  | drawIndexedPrimitives16 => (le16 body 2, le32 body 4, le16 body 10)
  | _ => (0, 0, 0)

/-- The guest's index `k`, of two bytes or of four. -/
def index (env : StagingEnv) (body : List UInt8) (op : DrawOp) (k : Nat) : Nat :=
  let src := op.indexSource body
  let size := if src.1 = 0 then 2 else 4
  let list := readVtxSource env.guest env.task src.2.1 src.2.2 (op.count body*size) 0
  if src.1 = 0 then le16 list (k*2) else le32 list (k*4)

/-- The number of the guest's vertex `k`. -/
def named (env : StagingEnv) (body : List UInt8) (op : DrawOp) (k : Nat) : Option Nat :=
  if op.indexed = true then
    if k < op.count body then some (op.index env body k) else none
  else some (op.vertexStart body+k)

end DrawOp

/-- What the slots' streams hold behind their offsets, with every read succeeding. -/
abbrev StreamContent := Nat → Nat → UInt8

/-- Byte `c` of 1.0. -/
def oneByte (c : Nat) : UInt8 := [0x00, 0x00, 0x80, 0x3f].getD c 0

/-- Byte `r` of vertex `i` of separate streams; attributes without a stream are 1.0. -/
def interleavedByte (content : StreamContent) (sizes : List Nat) (i r : Nat) : UInt8 :=
  match locate sizes r with
  | some (a, b) => if a < 2 then content a (i*sizes.getD a 0+b) else oneByte (b%4)
  | none => 0

/-- The stride that separate streams are interleaved at. -/
def tightStride (pp : PendingPipeline) : Nat :=
  if round8 (attrSizes pp).sum = 0 then 8 else round8 (attrSizes pp).sum

def uploadStride (d : DrawState) : Nat :=
  if vtxMultiStream d = true then tightStride d.pendingPipeline
  else streamStride d.pendingPipeline

/-- The buffer before indices are expanded: of separate streams, or of slot 1. -/
def streamBytes (content : StreamContent) (d : DrawState) (j : Nat) : UInt8 :=
  if vtxMultiStream d = true then
    if j/uploadStride d < drawDsBufSz/uploadStride d then
      interleavedByte content (attrSizes d.pendingPipeline) (j/uploadStride d) (j%uploadStride d)
    else 0
  else content 1 j

/-- Vertices copied in the order of an index list. -/
def gatherVertices (full : Nat → UInt8) (stride count : Nat) (idx : Nat → Nat) (j : Nat) : UInt8 :=
  if j/stride < count then full (idx (j/stride)*stride+j%stride) else 0

/-- From 0.99 to 1.01. -/
def nearOne (bits : Nat) : Bool := decide (0x3f7d70a4 ≤ bits ∧ bits ≤ 0x3f8147ae)

/-- The w of every vertex is made 1.0. -/
def forceW1 (stride : Nat) (full : Nat → UInt8) (j : Nat) : UInt8 :=
  if j/stride < drawDsBufSz/stride ∧ 12 ≤ j%stride ∧ j%stride < 16 ∧
      nearOne (leNat (read full (j/stride*stride+12) 4)) = false then oneByte (j%stride-12)
  else full j

/-- The index list that the vertices are expanded by. -/
def expansionList (env : StagingEnv) (d : DrawState) : Option (List UInt8) :=
  (indexList env (if vtxMultiStream d = true then 0 else 1) d.pendingDraw).filter fun ib =>
    expands drawDsBufSz (uploadStride d) d.pendingDraw.indexCount ib

/-- The rule that fixes the stream: separate streams whose positions are not all zero, or
slot 1. -/
def FixedStream (env : StagingEnv) (content : StreamContent) (d : DrawState) : Prop :=
  (vtxMultiStream d = true ∧ ∃ j < 96, content 0 j ≠ 0) ∨ slot1Auth env d = true

/-- What is uploaded of a stream. -/
def uploadBytes (env : StagingEnv) (content : StreamContent) (d : DrawState) : Nat → UInt8 :=
  match expansionList env d with
  | none => streamBytes content d
  | some ib =>
    let exp := gatherVertices (streamBytes content d) (uploadStride d) d.pendingDraw.indexCount
      (indexAt ib)
    if vtxMultiStream d = true then exp else forceW1 (uploadStride d) exp

/-- `lagfx_upload_guest_vertex_buffer`, of a stream that is fixed. -/
def fixedUpload (env : StagingEnv) (content : StreamContent) (d : DrawState) :
    Option (Nat → UInt8) :=
  if (d.vertexSlot 0).bound = true then some (uploadBytes env content d) else none

structure SubmittedDraw where
  vertexCount : Nat
  instanceCount : Nat
  firstVertex : Nat
  buffer : Nat → UInt8

/-- `lagfx_emit_pending_draw`, whether or not the draw gets to the device. -/
def emitFixedDraw (env : StagingEnv) (content : StreamContent) (reached : Bool) (d : DrawState)
    (count : Nat) : Option SubmittedDraw :=
  if d.pendingPipeline.valid = true ∧ d.renderPass.valid = true ∧ reached = true ∧
      d.pendingPipeline.vtxInputOn then
    (fixedUpload env content d).map fun buf => ⟨(vertexDraw d count).vc, 1, 0, buf⟩
  else none

/-- What a draw command submits. -/
def DrawOp.submit (env : StagingEnv) (content : StreamContent) (reached : Bool)
    (body : List UInt8) (d : DrawState) (op : DrawOp) : Option SubmittedDraw :=
  if op.handler.accepts body = true then
    emitFixedDraw env content reached (op.record body d) (op.count body)
  else none

/-- Byte `b` of the guest's vertex `n`, at the stride of the pipeline. -/
def guestVertex (content : StreamContent) (d : DrawState) (n b : Nat) : UInt8 :=
  if vtxMultiStream d = true then interleavedByte content (attrSizes d.pendingPipeline) n b
  else content 1 (n*(pipelineDesc d).vertexStride+b)

/-- Equal bytes, but for the w of a float4 position, which may be 1.0. -/
structure SameVertex (float4 : Bool) (stride : Nat) (u v : Nat → UInt8) : Prop where
  bytes : ∀ b < stride, ¬(float4 = true ∧ 12 ≤ b ∧ b < 16) → u b = v b
  w : float4 = true → (∀ b, 12 ≤ b → b < 16 → u b = v b) ∨ read u 12 4 = (List.range 4).map oneByte

/-- The draw covers the instances, and each of its vertices is uploaded and is the one
named. -/
structure DrawsNamed (env : StagingEnv) (content : StreamContent) (op : DrawOp)
    (body : List UInt8) (d : DrawState) (s : SubmittedDraw) : Prop where
  instances : op.instances body ≤ s.instanceCount
  uploaded : ∀ k < s.vertexCount, (s.firstVertex+k+1)*(pipelineDesc d).vertexStride ≤ drawDsBufSz
  vertices : ∀ k < s.vertexCount, ∃ n, op.named env body k = some n ∧
    SameVertex (slot1Auth env d) (pipelineDesc d).vertexStride
      (fun b => s.buffer ((s.firstVertex+k)*(pipelineDesc d).vertexStride+b))
      (guestVertex content d n)

/-- In every content of the streams. -/
def AlwaysDrawsNamed (env : StagingEnv) (reached : Bool) (op : DrawOp) (body : List UInt8)
    (d : DrawState) : Prop :=
  ∀ content, FixedStream env content d → ∀ s, op.submit env content reached body d = some s →
    DrawsNamed env content op body d s

/-- Something is submitted. -/
def Submits (reached : Bool) (op : DrawOp) (body : List UInt8) (d : DrawState) : Prop :=
  op.handler.accepts body = true ∧ d.pendingPipeline.valid = true ∧ d.renderPass.valid = true ∧
  reached = true ∧ d.pendingPipeline.translated = true ∧ (d.vertexSlot 0).bound = true

/- Unindexed vertices start at 0. Indices that are expanded at the stride of the pipeline are
   the guest's; at another stride there is one, and its vertex starts at the same byte.
   Indices that are not expanded count up from 0. -/
def NumbersKept (env : StagingEnv) (op : DrawOp) (body : List UInt8) (d : DrawState) : Prop :=
  let stride := (pipelineDesc d).vertexStride
  if op.indexed = true then
    match expansionList env (op.record body d) with
    | none => ∀ k < (vertexDraw d (op.count body)).vc, op.named env body k = some k
    | some ib =>
      if uploadStride d = stride then
        ∀ k < (vertexDraw d (op.count body)).vc, op.named env body k = some (indexAt ib k)
      else op.count body = 1 ∧ indexAt ib 0*uploadStride d = op.index env body 0*stride
  else op.vertexStart body = 0

/-- When every vertex submitted is the one named. -/
def NamesKept (env : StagingEnv) (reached : Bool) (op : DrawOp) (body : List UInt8)
    (d : DrawState) : Prop :=
  Submits reached op body d → op.instances body ≤ 1 ∧
    (vertexDraw d (op.count body)).vc*(pipelineDesc d).vertexStride ≤ drawDsBufSz ∧
    NumbersKept env op body d

/-- Inputs as they are reflected. -/
structure ReflectedInputs (pp : PendingPipeline) : Prop where
  at_most : pp.vtxInputs.length ≤ 8
  comps : ∀ a ∈ pp.vtxInputs, 1 ≤ a.2 ∧ a.2 ≤ 4

/-- A handler changes its entry in the draw it records, and in nothing else. -/
theorem DrawOp.record_eq (op : DrawOp) (body : List UInt8) (d : DrawState) :
    ∃ pd, op.record body d = { d with pendingDraw := pd } ∧ pd.indexed = op.indexed ∧
      pd.indexCount = op.count body := by
  cases op with
  | drawPrimitives16 => exact ⟨_, rfl, rfl, rfl⟩
  | drawInstancedPrimitives16 => exact ⟨_, rfl, rfl, rfl⟩
  | drawIndexedPrimitives64 => exact ⟨_, rfl, rfl, rfl⟩
  | drawIndexedPrimitives16 => exact ⟨_, rfl, rfl, rfl⟩

/-- The vertex that a byte is in, and where. -/
theorem vertex_byte {stride b : Nat} (k : Nat) (hb : b < stride) :
    (k*stride+b)/stride = k ∧ (k*stride+b)%stride = b := by
  constructor
  · rw [Nat.add_comm, Nat.add_mul_div_right b k (by omega), Nat.div_eq_of_lt hb, Nat.zero_add]
  · rw [Nat.add_comm, Nat.add_mul_mod_self_right, Nat.mod_eq_of_lt hb]

theorem gatherVertices_vertex {full : Nat → UInt8} {stride count k b : Nat} {idx : Nat → Nat}
    (hk : k < count) (hb : b < stride) :
    gatherVertices full stride count idx (k*stride+b) = full (idx k*stride+b) := by
  obtain ⟨hdiv, hmod⟩ := vertex_byte k hb
  rw [gatherVertices, hdiv, hmod, if_pos hk]

/-- Indices that are expanded all lie in the buffer, and so do the vertices made of them. -/
theorem expands_spec {want stride count : Nat} {ib : List UInt8}
    (h : expands want stride count ib = true) :
    count ≤ want/stride ∧ ∀ k < count, indexAt ib k < want/stride := by
  have hlen := of_decide_eq_true h
  have hsteps : (expandSteps want stride count).length = min count (want/stride) :=
    List.length_range
  have hle := List.length_filter_le (fun k => decide (indexAt ib k < want/stride))
    (expandSteps want stride count)
  have hcount : count ≤ want/stride := by omega
  refine ⟨hcount, fun k hk => ?_⟩
  have hall : (expandSteps want stride count).filter
      (fun k => decide (indexAt ib k < want/stride)) = expandSteps want stride count := by
    apply List.filter_sublist.eq_of_length
    omega
  have hmem : k ∈ expandSteps want stride count := List.mem_range.2 (by omega)
  exact of_decide_eq_true (List.filter_eq_self.1 hall k hmem)

theorem SameVertex.of_eq {float4 : Bool} {stride : Nat} {u v : Nat → UInt8}
    (hw : float4 = true → 16 ≤ stride) (h : ∀ b < stride, u b = v b) :
    SameVertex float4 stride u v where
  bytes b hb _ := h b hb
  w hfloat := .inl fun b _ hb => h b (hb.trans_le (hw hfloat))

theorem SameVertex.first {float4 : Bool} {stride : Nat} {u v : Nat → UInt8}
    (h : SameVertex float4 stride u v) (hpos : 0 < stride) : u 0 = v 0 :=
  h.bytes 0 hpos fun hw => absurd hw.2.1 (by decide)

theorem SameVertex.trans_eq {float4 : Bool} {stride : Nat} {u v v' : Nat → UInt8}
    (h : SameVertex float4 stride u v) (hw : float4 = true → 16 ≤ stride)
    (hv : ∀ b < stride, v b = v' b) : SameVertex float4 stride u v' where
  bytes b hb hn := (h.bytes b hb hn).trans (hv b hb)
  w hfloat := (h.w hfloat).imp_left fun hsame b hlo hhi =>
    (hsame b hlo hhi).trans (hv b (hhi.trans_le (hw hfloat)))

theorem SameVertex.mono {float4 : Bool} {stride stride' : Nat} {u v : Nat → UInt8}
    (h : SameVertex float4 stride u v) (hle : stride' ≤ stride) :
    SameVertex float4 stride' u v where
  bytes b hb hn := h.bytes b (hb.trans_le hle) hn
  w := h.w

/-- Vertices of a buffer differ from those with a forced w in the w only. -/
theorem forceW1_same {full : Nat → UInt8} {stride k : Nat} (hstride : 16 ≤ stride)
    (hk : k < drawDsBufSz/stride) : SameVertex true stride
      (fun b => forceW1 stride full (k*stride+b)) (fun b => full (k*stride+b)) := by
  have hdiv : ∀ b < stride, (k*stride+b)/stride = k := fun b hb => (vertex_byte k hb).1
  have hmod : ∀ b < stride, (k*stride+b)%stride = b := fun b hb => (vertex_byte k hb).2
  refine ⟨fun b hb hn => ?_, fun _ => ?_⟩
  · simp only [forceW1, hdiv b hb, hmod b hb]
    exact if_neg fun hw => hn ⟨rfl, hw.2.1, hw.2.2.1⟩
  · cases hnear : nearOne (leNat (read full (k*stride+12) 4)) with
    | true =>
      refine .inl fun b hlo hhi => ?_
      simp only [forceW1, hdiv b (by omega), hmod b (by omega), hnear]
      exact if_neg fun hw => Bool.false_ne_true hw.2.2.2.symm
    | false =>
      refine .inr ?_
      have hbyte : ∀ i < 4, forceW1 stride full (k*stride+(12+i)) = oneByte i := by
        intro i hi
        simp only [forceW1, hdiv (12+i) (by omega), hmod (12+i) (by omega), hnear]
        rw [if_pos ⟨hk, by omega, by omega, trivial⟩, Nat.add_sub_cancel_left]
      exact List.map_congr_left fun i hi => hbyte i (List.mem_range.1 hi)

section strides
variable {env : StagingEnv} {d : DrawState}

/-- Two attributes of two floats come first. -/
theorem vtxMultiStream_inputs (h : vtxMultiStream d = true) :
    ∃ a b rest, d.pendingPipeline.vtxInputs = a::b::rest ∧ a.2 = 2 ∧ b.2 = 2 := by
  rw [vtxMultiStream] at h
  split at h
  · rename_i a b rest heq
    simp only [Bool.and_eq_true, decide_eq_true_eq] at h
    exact ⟨a, b, rest, heq, h.1.1⟩
  · exact absurd h (by decide)

/-- A float4 comes first. -/
theorem slot1Auth_inputs (h : slot1Auth env d = true) :
    ∃ a b rest, d.pendingPipeline.vtxInputs = a::b::rest ∧ a.2 = 4 := by
  rw [slot1Auth] at h
  split at h
  · rename_i a b rest heq
    simp only [Bool.and_eq_true, decide_eq_true_eq] at h
    exact ⟨a, b, rest, heq, h.1.1⟩
  · exact absurd h (by decide)

theorem slot1Auth_single (h : slot1Auth env d = true) : vtxMultiStream d = false := by
  obtain ⟨a, b, rest, heq, hfour⟩ := slot1Auth_inputs h
  cases hm : vtxMultiStream d with
  | false => rfl
  | true =>
    obtain ⟨a', b', rest', heq', htwo, -⟩ := vtxMultiStream_inputs hm
    rw [heq] at heq'
    obtain ⟨rfl, -⟩ := List.cons.inj heq'
    omega

/-- Separate streams are uploaded at the stride of their pipeline. -/
theorem uploadStride_of_multi (h : d.pendingPipeline.VertexInputs)
    (hm : vtxMultiStream d = true) : uploadStride d = (pipelineDesc d).vertexStride := by
  have hpos := h.extent_pos
  have hround := round8_ge (reflectedExtent d.pendingPipeline)
  have hmulti : ¬(SaneStride d.pendingPipeline ∧ vtxMultiStream d = false) := by
    rw [hm]
    simp
  rw [uploadStride, if_pos hm, tightStride, h.attrSizes_sum, if_neg (by omega), h.stride,
    if_neg hmulti]

/-- The upload of slot 1 is at the stride of the pipeline, or at that rounded up. -/
theorem uploadStride_of_slot1 (h : d.pendingPipeline.VertexInputs)
    (h1 : slot1Auth env d = true) : 20 ≤ (pipelineDesc d).vertexStride ∧
    (pipelineDesc d).vertexStride ≤ uploadStride d ∧
    uploadStride d < (pipelineDesc d).vertexStride+8 ∧ uploadStride d ≤ 256 := by
  have hextent : 20 ≤ reflectedExtent d.pendingPipeline := by
    obtain ⟨a, b, rest, heq, hfour⟩ := slot1Auth_inputs h1
    have hb : 1 ≤ b.2 := (h.comps b (by rw [heq]; simp)).1
    rw [reflectedExtent, heq, List.map_cons, List.map_cons, List.sum_cons, List.sum_cons]
    omega
  have hle := h.extent_le
  have hm := slot1Auth_single h1
  have hround : reflectedExtent d.pendingPipeline ≤ round8 (reflectedExtent d.pendingPipeline) ∧
      round8 (reflectedExtent d.pendingPipeline) < reflectedExtent d.pendingPipeline+8 := by
    rw [round8]
    omega
  have hmulti : ¬vtxMultiStream d = true := by
    rw [hm]
    decide
  rw [uploadStride, if_neg hmulti, streamStride, h.attrSizes_sum, h.stride]
  simp only [SaneStride, hm, and_true]
  split_ifs <;> omega

/-- What is uploaded before the indices are expanded is the guest's vertices in order. -/
theorem streamBytes_vertex (content : StreamContent)
    (hs : vtxMultiStream d = true → uploadStride d = (pipelineDesc d).vertexStride) {k b : Nat}
    (hk : (k+1)*(pipelineDesc d).vertexStride ≤ drawDsBufSz)
    (hb : b < (pipelineDesc d).vertexStride) :
    streamBytes content d (k*(pipelineDesc d).vertexStride+b) = guestVertex content d k b := by
  rw [streamBytes, guestVertex]
  by_cases hm : vtxMultiStream d = true
  · have hroom : k < drawDsBufSz/(pipelineDesc d).vertexStride :=
      (Nat.le_div_iff_mul_le (by omega)).2 hk
    obtain ⟨hdiv, hmod⟩ := vertex_byte k hb
    rw [if_pos hm, if_pos hm, hs hm, hdiv, hmod, if_pos hroom]
  · rw [if_neg hm, if_neg hm]

/-- Content that is not zero anywhere and has a mark at one place of every stream. -/
def marked (p : Nat) : StreamContent := fun _ j => if j = p then 2 else 1

theorem fixedStream_of_ne_zero {content : StreamContent}
    (h : vtxMultiStream d = true ∨ slot1Auth env d = true) (hc : content 0 0 ≠ 0) :
    FixedStream env content d :=
  h.imp_left fun hm => ⟨hm, 0, by decide, hc⟩

theorem marked_ne_zero (p slot j : Nat) : marked p slot j ≠ 0 := by
  rw [marked]
  split_ifs <;> decide

/-- How far apart the first bytes of two vertices are. -/
def vertexStep (d : DrawState) : Nat :=
  if vtxMultiStream d = true then 8 else (pipelineDesc d).vertexStride

theorem guestVertex_first (content : StreamContent) (n : Nat) : guestVertex content d n 0 =
    content (if vtxMultiStream d = true then 0 else 1) (n*vertexStep d) := by
  rw [guestVertex, vertexStep]
  by_cases hm : vtxMultiStream d = true
  · obtain ⟨a, b, rest, heq, htwo, -⟩ := vtxMultiStream_inputs hm
    have hsizes : attrSizes d.pendingPipeline =
        8 :: (((b::rest).take 7).map fun a => a.2*4) := by
      rw [attrSizes, heq, maxVtxInputs, List.take_succ_cons, List.map_cons, htwo]
    rw [if_pos hm, if_pos hm, if_pos hm, hsizes, interleavedByte]
    rfl
  · rw [if_neg hm, if_neg hm, if_neg hm, Nat.add_zero]

/-- A byte tells a place by its mark. -/
theorem eq_of_marked {p q slot : Nat} (h : marked p slot p = marked p slot q) : q = p := by
  by_contra hne
  rw [marked, marked, if_pos rfl, if_neg hne] at h
  exact absurd h (by decide)

theorem vertexStep_pos (h : d.pendingPipeline.VertexInputs) : 0 < vertexStep d := by
  have hpos := h.extent_pos
  have hround := round8_ge (reflectedExtent d.pendingPipeline)
  rw [vertexStep, h.stride]
  split_ifs with hm hs
  · decide
  · exact hpos.trans_le hs.1.1
  · omega

end strides

section upload
variable {env : StagingEnv} {d : DrawState} {op : DrawOp} {body : List UInt8}

theorem uploadBytes_record (content : StreamContent) :
    uploadBytes env content (op.record body d) =
    match expansionList env (op.record body d) with
    | none => streamBytes content d
    | some ib =>
      let exp :=
        gatherVertices (streamBytes content d) (uploadStride d) (op.count body) (indexAt ib)
      if vtxMultiStream d = true then exp else forceW1 (uploadStride d) exp := by
  obtain ⟨pd, hrec, -, hcount⟩ := op.record_eq body d
  rw [hrec, uploadBytes, ← hcount]
  rfl

/-- Only indexed draws are expanded, and all their vertices. -/
theorem expansionList_spec {ib : List UInt8}
    (h : expansionList env (op.record body d) = some ib) :
    op.indexed = true ∧ 0 < op.count body ∧
    op.count body ≤ drawDsBufSz/uploadStride d ∧
    ∀ k < op.count body, indexAt ib k < drawDsBufSz/uploadStride d := by
  obtain ⟨pd, hrec, hindexed, hcount⟩ := op.record_eq body d
  rw [hrec, expansionList] at h
  obtain ⟨hlist, hexp⟩ := Option.filter_eq_some_iff.1 h
  generalize (if vtxMultiStream _ = true then 0 else 1) = path at hlist
  rw [indexList] at hlist
  split_ifs at hlist with hpd
  rw [← hcount, ← hindexed]
  exact ⟨hpd.1, hpd.2.2.1, expands_spec hexp⟩

/-- The indices that a 0x07 is expanded by are its own. -/
theorem indexed16_index {ib : List UInt8}
    (h : expansionList env (DrawOp.drawIndexedPrimitives16.record body d) = some ib) (k : Nat) :
    DrawOp.drawIndexedPrimitives16.index env body k = indexAt ib k := by
  obtain ⟨hlist, -⟩ := Option.filter_eq_some_iff.1 h
  generalize (if vtxMultiStream _ = true then 0 else 1) = path at hlist
  rw [indexList] at hlist
  split_ifs at hlist with hpd
  simp only at hlist
  split_ifs at hlist
  obtain rfl := Option.some.inj hlist
  have htype : le16 body 2 = 0 := hpd.2.1
  simp only [DrawOp.index, DrawOp.indexSource, htype, if_true]
  rfl

/-- The number of the vertex that is uploaded as the `k`-th. -/
def copiedFrom (env : StagingEnv) (op : DrawOp) (body : List UInt8) (d : DrawState)
    (k : Nat) : Nat :=
  match expansionList env (op.record body d) with
  | none => k
  | some ib => indexAt ib k

theorem vc_le_count (d : DrawState) {count : Nat} (h : 0 < count) :
    (vertexDraw d count).vc ≤ count := by
  simp only [vertexDraw, if_neg (Nat.ne_of_gt h)]
  exact Nat.min_le_left _ _

theorem capStride_bounds (h : d.pendingPipeline.VertexInputs) :
    0 < capStride d.pendingPipeline ∧ capStride d.pendingPipeline ≤ 256 := by
  have hpos := h.extent_pos
  have hle := h.extent_le
  rw [h.capStride]
  by_cases hs : SaneStride d.pendingPipeline
  · rw [if_pos hs]
    exact ⟨hpos.trans_le hs.1, hs.2⟩
  · rw [if_neg hs]
    omega

theorem vc_pos (h : d.pendingPipeline.VertexInputs) (count : Nat) :
    0 < (vertexDraw d count).vc := by
  have hcap := capStride_bounds h
  have hroom : 0 < drawDsBufSz/capStride d.pendingPipeline :=
    Nat.div_pos (hcap.2.trans (by decide)) hcap.1
  simp only [vertexDraw]
  refine Nat.lt_min.2 ⟨?_, hroom⟩
  split_ifs <;> omega

/-- Two vertices are drawn when two are named. -/
theorem two_le_vc (h : d.pendingPipeline.VertexInputs) {count : Nat} (hcount : 2 ≤ count) :
    2 ≤ (vertexDraw d count).vc := by
  have hcap := capStride_bounds h
  have hroom : 2 ≤ drawDsBufSz/capStride d.pendingPipeline := by
    rw [Nat.le_div_iff_mul_le hcap.1, drawDsBufSz]
    omega
  simp only [vertexDraw, if_neg (show count ≠ 0 by omega)]
  exact Nat.le_min.2 ⟨hcount, hroom⟩

theorem wide_of_slot1 (h : d.pendingPipeline.VertexInputs) (h1 : slot1Auth env d = true) :
    16 ≤ (pipelineDesc d).vertexStride := by
  have hlow := (uploadStride_of_slot1 h h1).1
  omega

/-- Vertices that are uploaded in order, or expanded at the stride of the pipeline, are
copies of the guest's. -/
theorem uploadBytes_vertex (h : d.pendingPipeline.VertexInputs)
    (hrule : vtxMultiStream d = true ∨ slot1Auth env d = true) (content : StreamContent)
    (hs : expansionList env (op.record body d) = none ∨
      uploadStride d = (pipelineDesc d).vertexStride) {k : Nat}
    (hk : k < (vertexDraw d (op.count body)).vc)
    (hroom : (k+1)*(pipelineDesc d).vertexStride ≤ drawDsBufSz) :
    SameVertex (slot1Auth env d) (pipelineDesc d).vertexStride
      (fun b => uploadBytes env content (op.record body d) (k*(pipelineDesc d).vertexStride+b))
      (guestVertex content d (copiedFrom env op body d k)) := by
  have hmulti := fun hm => @uploadStride_of_multi d h hm
  have hwide : slot1Auth env d = true → 16 ≤ (pipelineDesc d).vertexStride := wide_of_slot1 h
  rw [uploadBytes_record, copiedFrom]
  cases hlist : expansionList env (op.record body d) with
  | none => exact SameVertex.of_eq hwide fun b hb => streamBytes_vertex content hmulti hroom hb
  | some ib =>
    obtain ⟨-, hcount, hfit, hidx⟩ := expansionList_spec hlist
    have hstride : uploadStride d = (pipelineDesc d).vertexStride := by
      rw [hlist] at hs
      exact hs.resolve_left (by simp)
    have hlt : k < op.count body := hk.trans_le (vc_le_count d hcount)
    rw [hstride] at hfit hidx
    simp only [hstride]
    have hpos : 0 < (pipelineDesc d).vertexStride := by
      refine Nat.pos_of_ne_zero fun hzero => ?_
      rw [hzero, Nat.div_zero] at hfit
      omega
    have hsource : (indexAt ib k+1)*(pipelineDesc d).vertexStride ≤ drawDsBufSz :=
      (Nat.le_div_iff_mul_le hpos).1 (hidx k hlt)
    have hcopy : ∀ b < (pipelineDesc d).vertexStride,
        gatherVertices (streamBytes content d) (pipelineDesc d).vertexStride (op.count body)
          (indexAt ib) (k*(pipelineDesc d).vertexStride+b) =
        guestVertex content d (indexAt ib k) b := by
      intro b hb
      rw [gatherVertices_vertex hlt hb, streamBytes_vertex content hmulti hsource hb]
    by_cases hm : vtxMultiStream d = true
    · rw [if_pos hm]
      exact SameVertex.of_eq hwide hcopy
    · have h1 := hrule.resolve_left hm
      rw [if_neg hm, h1]
      exact (forceW1_same (hwide h1) (hlt.trans_le hfit)).trans_eq (fun _ => hwide h1) hcopy

/-- What is submitted, when something is. -/
def submitted (env : StagingEnv) (content : StreamContent) (op : DrawOp) (body : List UInt8)
    (d : DrawState) : SubmittedDraw :=
  ⟨(vertexDraw d (op.count body)).vc, 1, 0, uploadBytes env content (op.record body d)⟩

theorem submit_eq_some_iff (content : StreamContent) {reached : Bool}
    (hin : d.pendingPipeline.vtxInputs ≠ []) {s : SubmittedDraw} :
    op.submit env content reached body d = some s ↔
    Submits reached op body d ∧ s = submitted env content op body d := by
  obtain ⟨pd, hrec, -⟩ := op.record_eq body d
  have hvc : vertexDraw (op.record body d) (op.count body) = vertexDraw d (op.count body) := by
    rw [hrec]
    rfl
  have hslot : ((op.record body d).vertexSlot 0).bound = (d.vertexSlot 0).bound := by
    rw [hrec]
    rfl
  have hpipe : (op.record body d).pendingPipeline = d.pendingPipeline := by rw [hrec]
  have hpass : (op.record body d).renderPass = d.renderPass := by rw [hrec]
  rw [DrawOp.submit, emitFixedDraw, fixedUpload, hvc, hslot, hpipe, hpass]
  simp only [PendingPipeline.vtxInputOn, hin, ne_eq, not_false_eq_true, and_true]
  constructor
  · intro h
    split_ifs at h with hacc hemit hbound
    · obtain rfl := Option.some.inj h
      exact ⟨⟨hacc, hemit.1, hemit.2.1, hemit.2.2.1, hemit.2.2.2, hbound⟩, rfl⟩
    · cases h
  · intro h
    obtain ⟨hsub, rfl⟩ := h
    obtain ⟨hacc, hvalid, hrp, hreached, htrans, hbound⟩ := hsub
    rw [if_pos hacc, if_pos ⟨hvalid, hrp, hreached, htrans⟩, if_pos hbound]
    rfl

theorem DrawsNamed.room {content : StreamContent}
    (h : DrawsNamed env content op body d (submitted env content op body d)) :
    ∀ k < (vertexDraw d (op.count body)).vc,
      (k+1)*(pipelineDesc d).vertexStride ≤ drawDsBufSz := by
  intro k hk
  have hup := h.uploaded k hk
  simp only [submitted, Nat.zero_add] at hup
  exact hup

/-- The draw of every content has its vertices in the upload. -/
theorem uploaded_iff (h : d.pendingPipeline.VertexInputs) :
    (∀ k < (vertexDraw d (op.count body)).vc, (k+1)*(pipelineDesc d).vertexStride ≤ drawDsBufSz) ↔
    (vertexDraw d (op.count body)).vc*(pipelineDesc d).vertexStride ≤ drawDsBufSz := by
  have hpos := vc_pos h (op.count body)
  constructor
  · intro hall
    have hlast := hall ((vertexDraw d (op.count body)).vc-1) (by omega)
    rw [Nat.sub_add_cancel hpos] at hlast
    exact hlast
  · intro hfit k hk
    exact (Nat.mul_le_mul_right _ hk).trans hfit

theorem vertexStride_pos (h : d.pendingPipeline.VertexInputs) :
    0 < (pipelineDesc d).vertexStride := by
  have hpos := h.extent_pos
  have hround := round8_ge (reflectedExtent d.pendingPipeline)
  rw [h.stride]
  split_ifs with hs
  · exact hpos.trans_le hs.1.1
  · omega

/-- Copied vertices are the ones named when their numbers are. -/
theorem drawsNamed_iff_copied (h : d.pendingPipeline.VertexInputs)
    (hrule : vtxMultiStream d = true ∨ slot1Auth env d = true)
    (hs : expansionList env (op.record body d) = none ∨
      uploadStride d = (pipelineDesc d).vertexStride) :
    (∀ content, FixedStream env content d →
      DrawsNamed env content op body d (submitted env content op body d)) ↔
    op.instances body ≤ 1 ∧
    (vertexDraw d (op.count body)).vc*(pipelineDesc d).vertexStride ≤ drawDsBufSz ∧
    ∀ k < (vertexDraw d (op.count body)).vc, op.named env body k =
      some (copiedFrom env op body d k) := by
  have hfixed : ∀ p, FixedStream env (marked p) d := fun p =>
    fixedStream_of_ne_zero hrule (marked_ne_zero p 0 0)
  have hpos := vertexStride_pos h
  constructor
  · intro hall
    have hroom := (hall _ (hfixed 0)).room
    refine ⟨(hall _ (hfixed 0)).instances, (uploaded_iff h).1 hroom, fun k hk => ?_⟩
    -- The mark is at the first byte of the vertex copied from.
    have hcontent := hall _ (hfixed (copiedFrom env op body d k*vertexStep d))
    obtain ⟨n, hn, hsame⟩ := hcontent.vertices k hk
    have hcopy := uploadBytes_vertex h hrule (marked (copiedFrom env op body d k*vertexStep d))
      hs hk (hroom k hk)
    have hfirst := (hcopy.first hpos).symm.trans (show _ = _ by
      have := hsame.first hpos
      simp only [submitted, Nat.zero_add] at this
      exact this)
    rw [guestVertex_first, guestVertex_first] at hfirst
    rw [hn, Nat.eq_of_mul_eq_mul_right (vertexStep_pos h) (eq_of_marked hfirst)]
  · intro hkept content _
    obtain ⟨hinst, hfit, hnum⟩ := hkept
    have hroom := (uploaded_iff h).2 hfit
    refine ⟨hinst, fun k hk => ?_, fun k hk => ⟨_, hnum k hk, ?_⟩⟩
    · simp only [submitted, Nat.zero_add]
      exact hroom k hk
    · simp only [submitted, Nat.zero_add]
      exact uploadBytes_vertex h hrule content hs hk (hroom k hk)

/-- The numbers are kept by copies when they are the numbers copied from. -/
theorem numbersKept_iff_copied (h : d.pendingPipeline.VertexInputs)
    (hs : expansionList env (op.record body d) = none ∨
      uploadStride d = (pipelineDesc d).vertexStride) :
    NumbersKept env op body d ↔ ∀ k < (vertexDraw d (op.count body)).vc,
      op.named env body k = some (copiedFrom env op body d k) := by
  rw [NumbersKept]
  by_cases hindexed : op.indexed = true
  · simp only [hindexed, if_true, copiedFrom]
    cases hlist : expansionList env (op.record body d) with
    | none => rfl
    | some ib =>
      rw [hlist] at hs
      simp only [if_pos (hs.resolve_left (by simp))]
  · have hnone : expansionList env (op.record body d) = none := by
      cases hlist : expansionList env (op.record body d) with
      | none => rfl
      | some ib => exact absurd (expansionList_spec hlist).1 hindexed
    have hnamed : ∀ k, op.named env body k = some (op.vertexStart body+k) := fun k =>
      if_neg hindexed
    rw [if_neg hindexed]
    simp only [copiedFrom, hnone, hnamed, Option.some.injEq]
    constructor
    · intro hstart k _
      rw [hstart, Nat.zero_add]
    · intro hall
      exact hall 0 (vc_pos h (op.count body))

theorem oneByte_ne (c : Nat) : oneByte c ≠ 1 := by
  by_cases hc : c < 4
  · exact (show ∀ c < 4, oneByte c ≠ 1 by decide) c hc
  · have hlen : [0x00, 0x00, 0x80, (0x3f : UInt8)].length ≤ c := Nat.le_of_not_lt hc
    rw [oneByte, List.getD_eq_getElem?_getD, List.getElem?_eq_none hlen]
    decide

/-- Where no w is plausible, the second vertex has 1.0 written over it at the stride of the
upload. -/
theorem forceW1_second {stride count r : Nat} {idx : Nat → Nat} (hs : stride ≤ 256)
    (hr : 12 ≤ r ∧ r < 16 ∧ r < stride) (hwide : 16 ≤ stride) (hcount : 2 ≤ count) :
    forceW1 stride (gatherVertices (fun _ => 1) stride count idx) (1*stride+r) ≠ 1 := by
  obtain ⟨hdiv, hmod⟩ := vertex_byte 1 hr.2.2
  have hone : ∀ i < 4, gatherVertices (fun _ => 1) stride count idx (1*stride+12+i) = 1 := by
    intro i hi
    rw [Nat.add_assoc, gatherVertices_vertex (by omega) (by omega)]
  have hread : read (gatherVertices (fun _ => 1) stride count idx) (1*stride+12) 4 =
      [1, 1, 1, 1] :=
    List.map_congr_left fun i hi => hone i (List.mem_range.1 hi)
  have hroom : 1 < drawDsBufSz/stride := by
    rw [Nat.lt_iff_add_one_le, Nat.le_div_iff_mul_le (by omega), drawDsBufSz]
    omega
  rw [forceW1, hdiv, hmod, hread, if_pos ⟨hroom, hr.1, hr.2.1, by decide⟩]
  exact oneByte_ne _

/-- Vertices expanded at another stride than the pipeline's: one at most, and one that starts
at the byte of the vertex named. -/
theorem drawsNamed_iff_strides (h : d.pendingPipeline.VertexInputs)
    (h1 : slot1Auth env d = true) {ib : List UInt8}
    (hlist : expansionList env (op.record body d) = some ib)
    (hne : uploadStride d ≠ (pipelineDesc d).vertexStride) :
    (∀ content, FixedStream env content d →
      DrawsNamed env content op body d (submitted env content op body d)) ↔
    op.instances body ≤ 1 ∧
    (vertexDraw d (op.count body)).vc*(pipelineDesc d).vertexStride ≤ drawDsBufSz ∧
    op.count body = 1 ∧
    indexAt ib 0*uploadStride d = op.index env body 0*(pipelineDesc d).vertexStride := by
  obtain ⟨hindexed, hcount, hfit, hidx⟩ := expansionList_spec hlist
  obtain ⟨hlow, hle, hlt, hmost⟩ := uploadStride_of_slot1 h h1
  have hsingle := slot1Auth_single h1
  have hstream : ∀ content, streamBytes content d = content 1 := by
    intro content
    funext j
    rw [streamBytes, hsingle]
    exact if_neg Bool.false_ne_true
  have hupload : ∀ content, uploadBytes env content (op.record body d) =
      forceW1 (uploadStride d) (gatherVertices (content 1) (uploadStride d) (op.count body)
        (indexAt ib)) := by
    intro content
    rw [uploadBytes_record, hlist]
    simp only [hsingle, hstream]
    rfl
  have hguest : ∀ content n b, guestVertex content d n b =
      content 1 (n*(pipelineDesc d).vertexStride+b) := by
    intro content n b
    rw [guestVertex, hsingle]
    exact if_neg Bool.false_ne_true
  have hnamed : op.named env body 0 = some (op.index env body 0) := by
    rw [DrawOp.named, if_pos hindexed, if_pos hcount]
  -- The vertex at 0 is the start of a vertex of the upload, whatever its stride.
  have hfirst : ∀ content, SameVertex true (pipelineDesc d).vertexStride
      (uploadBytes env content (op.record body d))
      (fun b => content 1 (indexAt ib 0*uploadStride d+b)) := by
    intro content
    have hsame := @forceW1_same (gatherVertices (content 1) (uploadStride d) (op.count body)
      (indexAt ib)) (uploadStride d) 0 (by omega) (hcount.trans_le hfit)
    rw [hupload]
    simp only [Nat.zero_mul, Nat.zero_add] at hsame
    refine (hsame.trans_eq (fun _ => by omega) fun b hb => ?_).mono hle
    have hcopy := @gatherVertices_vertex (content 1) (uploadStride d) (op.count body) 0 b
      (indexAt ib) hcount hb
    rw [Nat.zero_mul, Nat.zero_add] at hcopy
    exact hcopy
  constructor
  · intro hall
    have hfixed : ∀ p, FixedStream env (marked p) d := fun p =>
      fixedStream_of_ne_zero (.inr h1) (marked_ne_zero p 0 0)
    have hroom := (hall _ (hfixed 0)).room
    refine ⟨(hall _ (hfixed 0)).instances, (uploaded_iff h).1 hroom, ?_, ?_⟩
    · by_contra hmany
      have htwo : 2 ≤ op.count body := by omega
      obtain ⟨n, -, hsame⟩ := (hall (fun _ _ => 1) (fixedStream_of_ne_zero (.inr h1)
        (by decide))).vertices 1 (two_le_vc h htwo)
      -- A byte of the second vertex behind its own w that is written as part of a w.
      obtain ⟨b, hb⟩ : ∃ b, b = max 16 (12+(uploadStride d-(pipelineDesc d).vertexStride)) :=
        ⟨_, rfl⟩
      have hbyte := hsame.bytes b (by omega) (by omega)
      have hplace : (0+1)*(pipelineDesc d).vertexStride+b =
          1*uploadStride d+(b-(uploadStride d-(pipelineDesc d).vertexStride)) := by
        omega
      simp only [submitted, hupload, hguest, hplace] at hbyte
      exact forceW1_second hmost (by omega) (by omega) htwo hbyte
    · obtain ⟨n, hn, hsame⟩ := (hall _ (hfixed (indexAt ib 0*uploadStride d))).vertices 0
        (vc_pos h _)
      rw [hnamed] at hn
      obtain rfl := Option.some.inj hn
      have hzero := hsame.first (by omega)
      have hown := (hfirst (marked (indexAt ib 0*uploadStride d))).first (by omega)
      simp only [submitted, Nat.add_zero, Nat.zero_mul, hguest] at hzero
      exact (eq_of_marked (hown.symm.trans hzero)).symm
  · intro hkept content _
    obtain ⟨hinst, hbuf, hone, hstart⟩ := hkept
    have hroom := (uploaded_iff h).2 hbuf
    have hvc := vc_le_count d hcount
    refine ⟨hinst, fun k hk => ?_, fun k hk => ?_⟩
    · simp only [submitted, Nat.zero_add]
      exact hroom k hk
    · have hk0 : k = 0 := by
        simp only [submitted] at hk
        omega
      rw [hk0, h1]
      refine ⟨_, hnamed, ?_⟩
      simp only [submitted, Nat.add_zero, Nat.zero_mul, Nat.zero_add]
      refine (hfirst content).trans_eq (fun _ => by omega) fun b hb => ?_
      rw [hguest, hstart]

end upload

/-- A draw command has its vertices drawn, in every content of its streams, exactly when it
names one instance, its vertices fit, and the numbers it names are those copied. -/
theorem draws_named_iff (guest : State) (task : TaskEntry) (reached : Bool) (op : DrawOp)
    (body : List UInt8) {d : DrawState} (h : ReflectedInputs d.pendingPipeline)
    (hrule : vtxMultiStream d = true ∨
      slot1Auth { guest := guest, task := task } d = true) :
    AlwaysDrawsNamed { guest := guest, task := task } reached op body d ↔
    NamesKept { guest := guest, task := task } reached op body d := by
  generalize hguest : ({ guest := guest, task := task } : StagingEnv) = env at hrule ⊢
  have hin : d.pendingPipeline.vtxInputs ≠ [] := by
    obtain hm | h1 := hrule
    · obtain ⟨a, b, rest, heq, -⟩ := vtxMultiStream_inputs hm
      simp [heq]
    · obtain ⟨a, b, rest, heq, -⟩ := slot1Auth_inputs h1
      simp [heq]
  rw [NamesKept]
  by_cases hsub : Submits reached op body d
  · have hv : d.pendingPipeline.VertexInputs := ⟨hsub.2.2.2.2.1, hin, h.at_most, h.comps⟩
    have halways : AlwaysDrawsNamed env reached op body d ↔ ∀ content,
        FixedStream env content d →
        DrawsNamed env content op body d (submitted env content op body d) := by
      refine forall_congr' fun content => forall_congr' fun _ => ?_
      constructor
      · intro hall
        exact hall _ ((submit_eq_some_iff content hin).2 ⟨hsub, rfl⟩)
      · intro hall s hs
        obtain ⟨-, rfl⟩ := (submit_eq_some_iff content hin).1 hs
        exact hall
    rw [halways, imp_iff_right hsub]
    by_cases hs : expansionList env (op.record body d) = none ∨
        uploadStride d = (pipelineDesc d).vertexStride
    · rw [drawsNamed_iff_copied hv hrule hs, numbersKept_iff_copied hv hs]
    · obtain ⟨hsome, hne⟩ := not_or.1 hs
      obtain ⟨ib, hlist⟩ := Option.ne_none_iff_exists'.1 hsome
      have h1 : slot1Auth env d = true := hrule.resolve_left fun hm =>
        hne (uploadStride_of_multi hv hm)
      rw [drawsNamed_iff_strides hv h1 hlist hne, NumbersKept,
        if_pos (expansionList_spec hlist).1, hlist]
      simp only [if_neg hne]
  · refine iff_of_true ?_ fun hcontra => absurd hcontra hsub
    intro content _ s hs
    exact absurd ((submit_eq_some_iff content hin).1 hs).1 hsub

/-- A float4 position and a texcoord in slot 1. -/
def slot1Draw : DrawState :=
  { renderPass := { valid := true }
    vertexBuffers := [⟨7, 0, true⟩, ⟨8, 0, true⟩]
    pendingPipeline := { valid := true, translated := true, vtxInputs := [(0, 4), (1, 2)] } }

/-- Six vertices from the first one on. -/
theorem quad_named : AlwaysDrawsNamed { guest := {}, task := {} } true .drawPrimitives16
    [3, 0, 0, 0, 0, 0, 6, 0] slot1Draw :=
  (draws_named_iff {} {} true .drawPrimitives16 _ ⟨by decide, by decide⟩ (.inr rfl)).2 fun _ =>
    ⟨by decide, by decide, rfl⟩

/-- Three vertices from the second one on: the first is drawn. -/
theorem later_vertices_not_named : FixedStream { guest := {}, task := {} } (marked 0) slot1Draw ∧
    ∃ s, DrawOp.submit { guest := {}, task := {} } (marked 0) true [3, 0, 0, 0, 1, 0, 3, 0]
      slot1Draw .drawPrimitives16 = some s ∧
    ¬DrawsNamed { guest := {}, task := {} } (marked 0) .drawPrimitives16
      [3, 0, 0, 0, 1, 0, 3, 0] slot1Draw s := by
  refine ⟨.inr rfl, _, rfl, fun h => ?_⟩
  obtain ⟨n, hn, hsame⟩ := h.vertices 0 (by decide)
  have hone : n = 1 := (Option.some.inj hn).symm
  rw [hone] at hsame
  exact absurd (hsame.first (by decide)) (by decide)

end Lagfx
