import Lagfx.VertexSource
import Mathlib.Algebra.Order.BigOperators.Group.List
import Mathlib.Data.FinEnum
import Mathlib.Data.List.TakeWhile

/-! Every access to the host buffers that a vertex upload goes through. -/
namespace Lagfx

inductive StagingBuffer where
  | full
  | exp
  | sbuf
  | ib
  | sample
deriving DecidableEq, Repr

/-- `len` bytes at `pos` of a buffer of `size` bytes. -/
structure Access where
  buffer : StagingBuffer
  size : Nat
  pos : Nat
  len : Nat
deriving DecidableEq, Repr

def Access.Inside (a : Access) : Prop := a.pos+a.len ≤ a.size

instance (a : Access) : Decidable a.Inside := inferInstanceAs (Decidable (_ ≤ _))

def Within (t : List Access) : Prop := ∀ a ∈ t, a.Inside

instance (t : List Access) : Decidable (Within t) := inferInstanceAs (Decidable (∀ _ ∈ _, _))

/- What an upload reads besides its entry: the guest, the policies and switches, which
   allocations succeed (`path` 0 is the multi-stream one, and a stream's own number),
   whether its first buffer is made, and the two scores of a sample. -/
structure StagingEnv where
  guest : State := {}
  task : TaskEntry := {}
  vtxsrc : Bool := true
  disableMultistream : Bool := false
  bigverts : Bool := false
  disableSlot1auth : Bool := false
  allowJunk : Bool := false
  disableForceW1 : Bool := false
  dumpSpv : Bool := false
  allocates : StagingBuffer → Nat → Bool := fun _ _ => true
  makesBuffer : Bool := true
  plausibility : List UInt8 → Nat := fun _ => 0
  positions : List UInt8 → Nat → Nat := fun _ _ => 0

def StagingEnv.want (env : StagingEnv) : Nat := if env.bigverts then bigvertsBufSz else drawDsBufSz

def StagingEnv.read (env : StagingEnv) (b : BindingSlot) (want mode : Nat) : List UInt8 :=
  readVtxSource env.guest env.task b.ref b.offset want mode

/-- The `k` with `(k+1)*stride ≤ len`, from 0 on. -/
def strideSteps (len stride : Nat) : List Nat := List.range (len/stride)

/- Index expansion, in both paths. -/

/-- The index list of a draw that can be expanded, when all of it is read. -/
def indexList (env : StagingEnv) (path : Nat) (pd : PendingDraw) : Option (List UInt8) :=
  if pd.indexed = true ∧ pd.indexType = 0 ∧ 0 < pd.indexCount ∧ pd.indexCount ≤ 4096 ∧
      pd.indexBufferRef ≠ 0 ∧ env.allocates .ib path = true then
    let ib := readVtxSource env.guest env.task pd.indexBufferRef pd.indexBufferOffset
      (pd.indexCount*2) 0
    if ib.length = pd.indexCount*2 then some ib else none
  else none

def indexAt (ib : List UInt8) (k : Nat) : Nat := le16 ib (k*2)

/-- The vertices that the expansion goes through. -/
def expandSteps (want stride count : Nat) : List Nat := List.range (min count (want/stride))

/-- `emitted == icount`. -/
def expands (want stride count : Nat) (ib : List UInt8) : Bool :=
  decide (((expandSteps want stride count).filter fun k =>
    decide (indexAt ib k < want/stride)).length = count)

def indexListAccesses (env : StagingEnv) (path : Nat) (pd : PendingDraw) : List Access :=
  if pd.indexed = true ∧ pd.indexType = 0 ∧ 0 < pd.indexCount ∧ pd.indexCount ≤ 4096 ∧
      pd.indexBufferRef ≠ 0 ∧ env.allocates .ib path = true then
    [⟨.ib, pd.indexCount*2, 0, pd.indexCount*2⟩]
  else []

def expandAccesses (want stride count : Nat) (ib : List UInt8) : List Access :=
  ((expandSteps want stride count).flatMap fun k =>
    ⟨.ib, count*2, k*2, 2⟩ :: if indexAt ib k < want/stride then
      [⟨.full, want, indexAt ib k*stride, stride⟩, ⟨.exp, want, k*stride, stride⟩] else []) ++
  if expands want stride count ib then [⟨.exp, want, 0, want⟩, ⟨.full, want, 0, want⟩] else []

/-- `lagfx_flag_pixel_texcoords`. -/
def texcoordAccesses (inputs want stride texOff : Nat) : List Access :=
  if inputs < 2 ∨ stride = 0 ∨ stride < texOff+8 then []
  else (List.range (min 8 (want/stride))).flatMap fun v =>
    [⟨.full, want, v*stride+texOff, 4⟩, ⟨.full, want, v*stride+texOff+4, 4⟩]

/- The multi-stream path. -/

/-- The stream that an attribute of `size` bytes is read from; the reader writes at most what
is asked of it. -/
def streamAccesses (want stride off size : Nat) : List Access :=
  let sneed := min (want/stride*size) want
  ⟨.sbuf, sneed, 0, sneed⟩ :: (List.range (want/stride)).flatMap fun i =>
    [⟨.sbuf, sneed, i*size, size⟩, ⟨.full, want, i*stride+off, size⟩]

/-- Attributes without a stream are 1.0 in each component. -/
def neutralAccesses (want stride off size : Nat) : List Access :=
  (List.range (want/stride)).flatMap fun i => (List.range (size/4)).map fun c =>
    ⟨.full, want, i*stride+off+c*4, 4⟩

def multiStreamLog (want stride : Nat) : List Access :=
  (List.range (min 4 (want/stride))).map fun vt => ⟨.full, want, vt*stride, 8⟩

/- The attributes from the `a`-th on, with the number of streams filled; none is left when
   the first 96 bytes of the positions are zero. -/
def interleave (env : StagingEnv) (d : DrawState) (want stride : Nat) :
    Nat → Nat → List Nat → List Access × Option Nat
  | _, _, [] => ([], some 0)
  | a, off, size::sizes =>
    if a < 2 then
      if env.allocates .sbuf a then
        let sneed := min (want/stride*size) want
        let got := env.read (d.vertexSlot a) sneed 0
        let probe : List Access := if a = 0 then [⟨.sbuf, sneed, 0, min got.length 96⟩] else []
        if a = 0 ∧ got ≠ [] ∧ ∀ x ∈ got.take 96, x = 0 then
          (⟨.sbuf, sneed, 0, sneed⟩::probe, none)
        else
          let rest := interleave env d want stride (a+1) (off+size) sizes
          (probe ++ streamAccesses want stride off size ++ rest.1,
            rest.2.map (·+if got = [] then 0 else 1))
      else interleave env d want stride (a+1) (off+size) sizes
    else
      let rest := interleave env d want stride (a+1) (off+size) sizes
      (neutralAccesses want stride off size ++ rest.1, rest.2)

/-- The accesses of the multi-stream path, and whether it uploads. -/
def multiStreamUpload (env : StagingEnv) (d : DrawState) : List Access × Bool :=
  let pp := d.pendingPipeline
  let sizes := attrSizes pp
  let want := env.want
  let stride := if round8 sizes.sum = 0 then 8 else round8 sizes.sum
  if env.vtxsrc = true ∧ env.disableMultistream = false ∧ vtxMultiStream d = true ∧
      env.allocates .full 0 = true then
    let r := interleave env d want stride 0 0 sizes
    match r.2 with
    | none => (r.1, false)
    | some 0 => (r.1, false)
    | some _ =>
      let expansion := indexListAccesses env 0 d.pendingDraw ++
        match indexList env 0 d.pendingDraw with
        | some ib =>
          if env.allocates .exp 0 then expandAccesses want stride d.pendingDraw.indexCount ib
          else []
        | none => []
      (r.1 ++ expansion ++ texcoordAccesses pp.vtxInputs.length want stride (sizes.getD 0 0) ++
        ⟨.full, want, 0, want⟩ :: (if env.dumpSpv then multiStreamLog want stride else []),
        env.makesBuffer)
  else ([], false)

/- The single-stream path. -/

def isNan32 (bits : Nat) : Bool := decide (0x7f800000 < bits%2^31)

/-- A vertex whose x, y or w is not a number is passed over. -/
def vertexNan (b : List UInt8) (pos : Nat) : Bool :=
  isNan32 (le32 b pos) || isNan32 (le32 b (pos+4)) || isNan32 (le32 b (pos+12))

/-- The stride that `lagfx_vtx_looks_like_positions` takes. -/
def positionStride (stride : Nat) : Nat := if stride < 8 ∨ 256 < stride then 48 else stride

/-- The vertices that it looks at: until it has 16. -/
def positionVertices (b : List UInt8) (stride : Nat) : Nat → Nat → Nat → List Nat
  | 0, _, _ => []
  | rounds+1, v, nv =>
    if (v+1)*stride ≤ b.length ∧ nv < 16 then
      v :: positionVertices b stride rounds (v+1) (if vertexNan b (v*stride) then nv else nv+1)
    else []

/-- The words that `lagfx_vtx_float_plausibility` looks at: until 64 are not zero. -/
def plausibilityWords (b : List UInt8) : List Nat :=
  (List.range (b.length/4)).filter fun i =>
    decide (((List.range i).filter fun j => decide (le32 b (j*4) ≠ 0)).length < 64)

/-- A sample as it is scored. -/
def sampleAccesses (b : List UInt8) (stride : Nat) : List Access :=
  ((plausibilityWords b).map fun i => ⟨.sample, 512, i*4, 4⟩) ++
  (positionVertices b (positionStride stride) b.length 0 0).flatMap fun v =>
    [⟨.sample, 512, v*positionStride stride, 4⟩, ⟨.sample, 512, v*positionStride stride+4, 4⟩,
      ⟨.sample, 512, v*positionStride stride+12, 4⟩]

/-- Slots 0 to 7, each in both modes, but those claimed or not bound. -/
def scanned (d : DrawState) : List (Nat × Nat) :=
  ((List.range 16).map fun sm => (sm/2, sm%2)).filter fun c =>
    !vtxClaimed d.pendingPipeline c.1 && (d.vertexSlot c.1).bound

/-- The family that leads with a float4 position takes slot 1. -/
def slot1Auth (env : StagingEnv) (d : DrawState) : Bool :=
  match d.pendingPipeline.vtxInputs with
  | a::_::_ => decide (a.2 = 4) && (d.vertexSlot 1).bound && !env.disableSlot1auth
  | _ => false

def sampleScore (env : StagingEnv) (d : DrawState) (c : Nat × Nat) : Nat :=
  let got := env.read (d.vertexSlot c.1) 512 c.2
  if got = [] then 0
  else if env.positions got (streamStride d.pendingPipeline) ≠ 0 then
    1000+env.positions got (streamStride d.pendingPipeline)
  else env.plausibility got

/-- The highest score from 50 on, the first of equal ones. -/
def bestScored (env : StagingEnv) (d : DrawState) : Option ((Nat × Nat) × Nat) :=
  (scanned d).foldl (fun best c =>
    let score := sampleScore env d c
    if 50 ≤ score ∧ (best.map Prod.snd).getD 0 < score then some (c, score) else best) none

inductive StreamPick where
  | legacy
  | skipped
  | stream (slot mode : Nat)
deriving DecidableEq, Repr

def pickStream (env : StagingEnv) (d : DrawState) : StreamPick :=
  if slot1Auth env d then .stream 1 0
  else match bestScored env d with
    | none => .legacy
    | some (c, score) =>
      if score < 1000 ∧ env.allowJunk = false then .skipped else .stream c.1 c.2

/-- The index list that a stream of this much data is expanded by. -/
def singleExpansion (env : StagingEnv) (d : DrawState) : Option (List UInt8) :=
  (indexList env 1 d.pendingDraw).filter fun ib => env.allocates .exp 1 &&
    expands env.want (streamStride d.pendingPipeline) d.pendingDraw.indexCount ib

def forceW1Accesses (want stride : Nat) : List Access :=
  (strideSteps want stride).map fun k => ⟨.full, want, k*stride+12, 4⟩

/-- The logs of a stream's data: places that may hold a vertex, and the first vertices. -/
def streamLog (want filled : Nat) : List Access :=
  (((List.range filled).map fun i => i*4).takeWhile fun o => decide (o+16 ≤ filled)).map
    (fun o => ⟨.full, want, o, 16⟩) ++
  (List.range (min 6 (want/24))).map fun vt => ⟨.full, want, vt*24, 16⟩

/-- The log of the first three expanded vertices. -/
def expansionLog (want stride count : Nat) : List Access :=
  (List.range (min 3 (want/stride))).flatMap fun vt =>
    [⟨.full, want, vt*stride, 24⟩, ⟨.ib, count*2, vt*2, 2⟩]

/-- The positions that the bounding box is made of. -/
def bboxAccesses (want stride : Nat) : List Access :=
  (((List.range want).map fun i => i*stride).takeWhile fun bo => decide (bo+8 ≤ want)).map
    fun bo => ⟨.full, want, bo, 8⟩

/-- The upload of a stream that has been picked. -/
def singleStreamUpload (env : StagingEnv) (d : DrawState) (slot mode : Nat) : List Access :=
  let pp := d.pendingPipeline
  let stride := streamStride pp
  let want := env.want
  let count := d.pendingDraw.indexCount
  let filled := (env.read (d.vertexSlot slot) want mode).length
  if env.allocates .full 1 = false then []
  else if filled = 0 then [⟨.full, want, 0, want⟩]
  else
    let expansion := indexListAccesses env 1 d.pendingDraw ++
      match indexList env 1 d.pendingDraw with
      | some ib => if env.allocates .exp 1 then expandAccesses want stride count ib else []
      | none => []
    let expanded := if (singleExpansion env d).isSome then
        (if env.disableForceW1 then [] else forceW1Accesses want stride) ++
        if env.dumpSpv then expansionLog want stride count else []
      else []
    ⟨.full, want, 0, want⟩::(if env.dumpSpv then streamLog want filled else []) ++
      expansion ++ expanded ++ bboxAccesses want stride ++
      texcoordAccesses pp.vtxInputs.length want stride ((attrSizes pp).getD 0 0) ++
      [⟨.full, want, 0, want⟩]

/-- Whether the upload gets to the single-stream path. -/
def reachesSingle (env : StagingEnv) (d : DrawState) : Bool :=
  (d.vertexSlot 0).bound && env.vtxsrc && !(multiStreamUpload env d).2

/-- `lagfx_upload_guest_vertex_buffer`, up to its legacy path, which uses none of these
buffers. -/
def uploadAccesses (env : StagingEnv) (d : DrawState) : List Access :=
  (if (d.vertexSlot 0).bound then (multiStreamUpload env d).1 else []) ++
  if reachesSingle env d then
    (if slot1Auth env d then [] else (scanned d).flatMap fun c =>
      ⟨.sample, 512, 0, 512⟩ ::
        sampleAccesses (env.read (d.vertexSlot c.1) 512 c.2) (streamStride d.pendingPipeline)) ++
    match pickStream env d with
    | .stream slot mode => singleStreamUpload env d slot mode
    | _ => []
  else []

/- When they all stay inside. -/

/-- No vertex that is looked at reaches behind the sample with its w. -/
def SampleFits (b : List UInt8) (stride : Nat) : Prop :=
  ∀ v, (v+1)*positionStride stride ≤ b.length →
    ((List.range v).filter fun u => !vertexNan b (u*positionStride stride)).length < 16 →
    v*positionStride stride+16 ≤ 512

/-- The single-stream path is reached, picks a stream that has data, and expands indices. -/
def ExpandsSingle (env : StagingEnv) (d : DrawState) : Prop :=
  reachesSingle env d = true ∧ (∃ slot mode, pickStream env d = .stream slot mode ∧
    env.read (d.vertexSlot slot) env.want mode ≠ []) ∧ env.allocates .full 1 = true ∧
  (singleExpansion env d).isSome = true

structure StagingFits (env : StagingEnv) (d : DrawState) : Prop where
  samples : reachesSingle env d = true → slot1Auth env d = false → ∀ c ∈ scanned d,
    SampleFits (env.read (d.vertexSlot c.1) 512 c.2) (streamStride d.pendingPipeline)
  forced : ExpandsSingle env d → env.disableForceW1 = false →
    16 ≤ streamStride d.pendingPipeline+env.want%streamStride d.pendingPipeline
  logged : ExpandsSingle env d → env.dumpSpv = true → 3 ≤ d.pendingDraw.indexCount

theorem within_append {t u : List Access} : Within (t++u) ↔ Within t ∧ Within u :=
  List.forall_mem_append

theorem within_cons {a : Access} {t : List Access} : Within (a::t) ↔ a.Inside ∧ Within t :=
  List.forall_mem_cons

theorem within_nil : Within [] := fun _ h => absurd h List.not_mem_nil

theorem within_flatMap {β : Type} {l : List β} {f : β → List Access} :
    Within (l.flatMap f) ↔ ∀ x ∈ l, Within (f x) :=
  ⟨fun h x hx a ha => h a (List.mem_flatMap.2 ⟨x, hx, ha⟩), fun h a ha => by
    obtain ⟨x, hx, ha⟩ := List.mem_flatMap.1 ha
    exact h x hx a ha⟩

theorem within_map {β : Type} {l : List β} {f : β → Access} :
    Within (l.map f) ↔ ∀ x ∈ l, (f x).Inside :=
  List.forall_mem_map

theorem StagingEnv.read_length (env : StagingEnv) (b : BindingSlot) (want mode : Nat) :
    (env.read b want mode).length ≤ want :=
  readVtxSource_length ..

/-- A whole element of a buffer. -/
theorem step_inside {i len stride : Nat} (h : i < len/stride) : i*stride+stride ≤ len := by
  have hmul : (i+1)*stride ≤ len/stride*stride := Nat.mul_le_mul_right stride h
  have hdiv := Nat.div_mul_le_self len stride
  rw [Nat.add_mul] at hmul
  omega

theorem indexListAccesses_within (env : StagingEnv) (path : Nat) (pd : PendingDraw) :
    Within (indexListAccesses env path pd) := by
  rw [indexListAccesses]
  split_ifs
  · exact within_cons.2 ⟨by rw [Access.Inside, Nat.zero_add], within_nil⟩
  · exact within_nil

theorem expandAccesses_within (want stride count : Nat) (ib : List UInt8) :
    Within (expandAccesses want stride count ib) := by
  rw [expandAccesses, within_append, within_flatMap]
  constructor
  · intro k hk
    have hk := List.mem_range.1 hk
    have hcopy := step_inside (show k < want/stride by omega)
    rw [within_cons]
    refine ⟨by simp only [Access.Inside]; omega, ?_⟩
    split_ifs with hidx
    · have hsource := step_inside hidx
      exact within_cons.2 ⟨hsource, within_cons.2 ⟨hcopy, within_nil⟩⟩
    · exact within_nil
  · split_ifs
    · simp [Within, Access.Inside]
    · exact within_nil

theorem texcoordAccesses_within (inputs want stride texOff : Nat) :
    Within (texcoordAccesses inputs want stride texOff) := by
  rw [texcoordAccesses]
  split_ifs with hskip
  · exact within_nil
  · rw [within_flatMap]
    intro v hv
    have hv := List.mem_range.1 hv
    have hstep := step_inside (show v < want/stride by omega)
    refine within_cons.2 ⟨?_, within_cons.2 ⟨?_, within_nil⟩⟩
    · simp only [Access.Inside]
      omega
    · simp only [Access.Inside]
      omega

/- The multi-stream path stays inside. -/

theorem streamAccesses_within {want stride off size : Nat} (h : off+size ≤ stride) :
    Within (streamAccesses want stride off size) := by
  have hsneed : want/stride*size ≤ want :=
    (Nat.mul_le_mul_left _ (by omega)).trans (Nat.div_mul_le_self want stride)
  rw [streamAccesses, within_cons, within_flatMap]
  refine ⟨by rw [Access.Inside, Nat.zero_add], fun i hi => ?_⟩
  have hi := List.mem_range.1 hi
  have hstep := step_inside hi
  have hread : (i+1)*size ≤ want/stride*size := Nat.mul_le_mul_right size hi
  rw [Nat.add_mul] at hread
  refine within_cons.2 ⟨?_, within_cons.2 ⟨?_, within_nil⟩⟩
  · simp only [Access.Inside]
    omega
  · simp only [Access.Inside]
    omega

theorem neutralAccesses_within {want stride off size : Nat} (h : off+size ≤ stride) :
    Within (neutralAccesses want stride off size) := by
  rw [neutralAccesses, within_flatMap]
  intro i hi
  have hstep := step_inside (List.mem_range.1 hi)
  rw [within_map]
  intro c hc
  have hc := List.mem_range.1 hc
  simp only [Access.Inside]
  omega

theorem interleave_within (env : StagingEnv) (d : DrawState) {want stride : Nat}
    {sizes : List Nat} {a off : Nat} (h : off+sizes.sum ≤ stride) :
    Within (interleave env d want stride a off sizes).1 := by
  induction sizes generalizing a off with
  | nil => exact within_nil
  | cons size sizes ih =>
    rw [List.sum_cons] at h
    have hrest := @ih (a+1) (off+size) (by omega)
    have hcopy : off+size ≤ stride := by omega
    have hprobe : Within (if a = 0 then [(⟨.sbuf, min (want/stride*size) want, 0,
        min (env.read (d.vertexSlot a) (min (want/stride*size) want) 0).length 96⟩ : Access)]
        else []) := by
      have hlen := env.read_length (d.vertexSlot a) (min (want/stride*size) want) 0
      split_ifs
      · refine within_cons.2 ⟨?_, within_nil⟩
        simp only [Access.Inside]
        omega
      · exact within_nil
    rw [interleave]
    dsimp only
    generalize (if a = 0 then [(⟨.sbuf, min (want/stride*size) want, 0,
      min (env.read (d.vertexSlot a) (min (want/stride*size) want) 0).length 96⟩ : Access)]
      else []) = probe at hprobe ⊢
    have hcopied := within_append.2
      ⟨within_append.2 ⟨hprobe, @streamAccesses_within want _ _ _ hcopy⟩,
      hrest⟩
    split_ifs with hstream halloc hzero hgot
    · exact within_cons.2 ⟨(Nat.zero_add _).le, hprobe⟩
    · exact hcopied
    · exact hcopied
    · exact hrest
    · exact within_append.2 ⟨neutralAccesses_within hcopy, hrest⟩

theorem whole_within (want : Nat) : Within [⟨.full, want, 0, want⟩] :=
  within_cons.2 ⟨(Nat.zero_add want).le, within_nil⟩

theorem expansion_within (env : StagingEnv) (pd : PendingDraw) (path want stride : Nat) :
    Within (indexListAccesses env path pd ++ match indexList env path pd with
      | some ib =>
        if env.allocates .exp path then expandAccesses want stride pd.indexCount ib else []
      | none => []) := by
  refine within_append.2 ⟨indexListAccesses_within env path pd, ?_⟩
  split
  · split_ifs
    · exact expandAccesses_within _ _ _ _
    · exact within_nil
  · exact within_nil

theorem multiStreamLog_within {want stride : Nat} (h : 8 ≤ stride) :
    Within (multiStreamLog want stride) := by
  rw [multiStreamLog, within_map]
  intro vt hvt
  have hvt := List.mem_range.1 hvt
  have hstep := step_inside (show vt < want/stride by omega)
  simp only [Access.Inside]
  omega

theorem multiStreamUpload_within (env : StagingEnv) (d : DrawState) :
    Within (multiStreamUpload env d).1 := by
  have hround := round8_ge (attrSizes d.pendingPipeline).sum
  rw [multiStreamUpload]
  dsimp only
  generalize hstride : (if round8 (attrSizes d.pendingPipeline).sum = 0 then 8
    else round8 (attrSizes d.pendingPipeline).sum) = stride
  have hsum : 0+(attrSizes d.pendingPipeline).sum ≤ stride ∧ 8 ≤ stride := by
    rw [← hstride]
    split_ifs with hz
    · omega
    · rw [round8] at hz hround ⊢
      omega
  have hloop := @interleave_within env d env.want stride _ 0 0 hsum.1
  split
  · split
    · exact hloop
    · exact hloop
    · refine within_append.2 ⟨within_append.2 ⟨within_append.2 ⟨hloop, ?_⟩, ?_⟩, ?_⟩
      · exact expansion_within env d.pendingDraw 0 env.want stride
      · exact texcoordAccesses_within _ _ _ _
      · refine within_cons.2 ⟨(Nat.zero_add _).le, ?_⟩
        split_ifs
        · exact multiStreamLog_within hsum.2
        · exact within_nil
  · exact within_nil

/- The single-stream path. -/

/-- The vertices looked at: those in the data that fewer than 16 numbers come before. -/
theorem mem_positionVertices {b : List UInt8} {stride rounds v nv w : Nat} (hs : 0 < stride)
    (hrounds : b.length ≤ v+rounds) (hnv : nv = ((List.range v).filter fun u =>
      !vertexNan b (u*stride)).length) :
    w ∈ positionVertices b stride rounds v nv ↔ v ≤ w ∧ (w+1)*stride ≤ b.length ∧
      ((List.range w).filter fun u => !vertexNan b (u*stride)).length < 16 := by
  induction rounds generalizing v nv with
  | zero =>
    refine iff_of_false (List.not_mem_nil) fun h => ?_
    have hle : w+1 ≤ (w+1)*stride := Nat.le_mul_of_pos_right _ hs
    omega
  | succ rounds ih =>
    have hnext : (if vertexNan b (v*stride) then nv else nv+1) = ((List.range (v+1)).filter
        fun u => !vertexNan b (u*stride)).length := by
      rw [List.range_succ, List.filter_append, List.length_append, ← hnv]
      cases hnan : vertexNan b (v*stride) with
      | true => simp [hnan]
      | false => simp [hnan]
    rw [positionVertices]
    by_cases hin : (v+1)*stride ≤ b.length ∧ nv < 16
    · rw [if_pos hin, List.mem_cons, ih (by omega) hnext]
      constructor
      · intro h
        obtain rfl | h := h
        · exact ⟨Nat.le_refl w, hin.1, hnv ▸ hin.2⟩
        · exact ⟨by omega, h.2⟩
      · intro h
        obtain rfl | hlt := Nat.eq_or_lt_of_le h.1
        · exact .inl rfl
        · exact .inr ⟨hlt, h.2⟩
    · rw [if_neg hin]
      refine iff_of_false List.not_mem_nil fun h => hin ⟨?_, ?_⟩
      · exact (Nat.mul_le_mul_right stride (Nat.succ_le_succ h.1)).trans h.2.1
      · have hsub := ((List.range_sublist.2 h.1).filter
          fun u => !vertexNan b (u*stride)).length_le
        omega

theorem positionStride_ge (stride : Nat) : 8 ≤ positionStride stride := by
  rw [positionStride]
  split_ifs with h
  · decide
  · omega

theorem sampleAccesses_within_iff {b : List UInt8} (hb : b.length ≤ 512) (stride : Nat) :
    Within (sampleAccesses b stride) ↔ SampleFits b stride := by
  have hs := positionStride_ge stride
  have hwords : Within ((plausibilityWords b).map fun i => ⟨.sample, 512, i*4, 4⟩) := by
    rw [within_map]
    intro i hi
    have hi := List.mem_range.1 (List.mem_filter.1 hi).1
    simp only [Access.Inside]
    omega
  rw [sampleAccesses, within_append, within_flatMap, SampleFits]
  constructor
  · intro h v hv hcount
    have hw := h.2 v
      ((mem_positionVertices (by omega) (by omega) rfl).2 ⟨Nat.zero_le v, hv, hcount⟩)
    exact (hw ⟨.sample, 512, v*positionStride stride+12, 4⟩ (by simp) :)
  · intro h
    refine ⟨hwords, fun v hv => ?_⟩
    obtain ⟨-, hin, hcount⟩ := (mem_positionVertices (by omega) (by omega) rfl).1 hv
    have hw := h v hin hcount
    refine within_cons.2 ⟨?_, within_cons.2 ⟨?_, within_cons.2 ⟨hw, within_nil⟩⟩⟩
    · simp only [Access.Inside]
      omega
    · simp only [Access.Inside]
      omega

theorem forceW1_within_iff {want stride : Nat} (hs : 0 < stride) (hwant : stride ≤ want) :
    Within (forceW1Accesses want stride) ↔ 16 ≤ stride+want%stride := by
  have hdiv := Nat.div_add_mod want stride
  have hpos : 0 < want/stride := Nat.div_pos hwant hs
  rw [forceW1Accesses, within_map]
  constructor
  · intro h
    -- Only the last vertex can reach behind the buffer.
    have hlast := h (want/stride-1) (List.mem_range.2 (by omega))
    simp only [Access.Inside] at hlast
    have hmul : stride*(want/stride) = (want/stride-1)*stride+stride := by
      rw [Nat.mul_comm, ← Nat.succ_mul, Nat.succ_eq_add_one, Nat.sub_add_cancel hpos]
    omega
  · intro h k hk
    have hk := List.mem_range.1 hk
    have hmul : (k+1)*stride ≤ want/stride*stride := Nat.mul_le_mul_right stride hk
    rw [Nat.add_mul, Nat.one_mul, Nat.mul_comm (want/stride)] at hmul
    simp only [Access.Inside]
    omega

theorem expansionLog_within_iff {want stride count : Nat} (hs : stride ≤ 256) (hpos : 0 < stride)
    (hwant : 3*256+24 ≤ want) : Within (expansionLog want stride count) ↔ 3 ≤ count := by
  have hthree : 3 ≤ want/stride := (Nat.le_div_iff_mul_le hpos).2 (by omega)
  rw [expansionLog, within_flatMap, Nat.min_eq_left hthree]
  constructor
  · intro h
    have hlast := h 2 (by decide) ⟨.ib, count*2, 2*2, 2⟩ (by simp)
    simp only [Access.Inside] at hlast
    omega
  · intro h vt hvt
    have hvt := List.mem_range.1 hvt
    have hmul : vt*stride ≤ 2*256 := Nat.mul_le_mul (by omega) hs
    refine within_cons.2 ⟨?_, within_cons.2 ⟨?_, within_nil⟩⟩
    · simp only [Access.Inside]
      omega
    · simp only [Access.Inside]
      omega

theorem bboxAccesses_within (want stride : Nat) : Within (bboxAccesses want stride) := by
  rw [bboxAccesses, within_map]
  intro bo hbo
  have hroom := List.mem_takeWhile_imp hbo
  exact of_decide_eq_true hroom

theorem streamLog_within {want filled : Nat} (h : filled ≤ want) :
    Within (streamLog want filled) := by
  rw [streamLog, within_append, within_map, within_map]
  constructor
  · intro o ho
    have hroom := List.mem_takeWhile_imp ho
    exact (of_decide_eq_true hroom).trans h
  · intro vt hvt
    have hvt := List.mem_range.1 hvt
    have hstep := step_inside (show vt < want/24 by omega)
    simp only [Access.Inside]
    omega

theorem streamStride_le {pp : PendingPipeline} (h : ∀ a ∈ pp.vtxInputs, a.2 ≤ 4) :
    streamStride pp ≤ 256 := by
  have hsum : (attrSizes pp).sum ≤ 8*16 := by
    have hle : ∀ n ∈ attrSizes pp, n ≤ 16 := by
      intro n hn
      obtain ⟨a, ha, rfl⟩ := List.mem_map.1 hn
      have := h a (List.mem_of_mem_take ha)
      omega
    have hlen : (attrSizes pp).length ≤ 8 := by
      rw [attrSizes, List.length_map]
      exact List.length_take_le ..
    calc (attrSizes pp).sum ≤ (attrSizes pp).length*16 := List.sum_le_card_nsmul _ _ hle
      _ ≤ 8*16 := Nat.mul_le_mul_right 16 hlen
  have hround : round8 (attrSizes pp).sum ≤ 128 := by
    rw [round8]
    omega
  rw [streamStride]
  by_cases hpso : round8 (attrSizes pp).sum ≤ pp.vtxStride ∧ pp.vtxStride ≤ 256
  · rw [if_pos hpso]
    split_ifs
    · decide
    · exact hpso.2
  · rw [if_neg hpso]
    split_ifs
    · decide
    · omega

/-- The stream picked is uploaded within its buffers when the w of its last vertex is, and
the log has three indices. -/
theorem singleStreamUpload_within_iff (env : StagingEnv) {d : DrawState} (slot mode : Nat)
    (hcomp : ∀ a ∈ d.pendingPipeline.vtxInputs, a.2 ≤ 4) :
    Within (singleStreamUpload env d slot mode) ↔
    (env.allocates .full 1 = true → env.read (d.vertexSlot slot) env.want mode ≠ [] →
      (singleExpansion env d).isSome = true →
      (env.disableForceW1 = false →
        16 ≤ streamStride d.pendingPipeline+env.want%streamStride d.pendingPipeline) ∧
      (env.dumpSpv = true → 3 ≤ d.pendingDraw.indexCount)) := by
  have hstride := streamStride_le hcomp
  have hpos := streamStride_pos d.pendingPipeline
  have hwant : 3*256+24 ≤ env.want := by
    rw [StagingEnv.want]
    split_ifs
    · decide
    · decide
  have hlen := env.read_length (d.vertexSlot slot) env.want mode
  rw [singleStreamUpload]
  dsimp only
  by_cases halloc : env.allocates .full 1 = false
  · rw [if_pos halloc]
    exact iff_of_true within_nil fun h => absurd halloc (by rw [h]; decide)
  rw [if_neg halloc]
  by_cases hempty : env.read (d.vertexSlot slot) env.want mode = []
  · rw [hempty, List.length_nil, if_pos rfl]
    exact iff_of_true (whole_within env.want) fun _ h => absurd rfl h
  have hfilled : (env.read (d.vertexSlot slot) env.want mode).length ≠ 0 :=
    fun h => hempty (List.length_eq_zero_iff.1 h)
  have hlog : Within (if env.dumpSpv then streamLog env.want
      (env.read (d.vertexSlot slot) env.want mode).length else []) := by
    split_ifs
    · exact streamLog_within hlen
    · exact within_nil
  have hexp := expansion_within env d.pendingDraw 1 env.want (streamStride d.pendingPipeline)
  have hrest := within_append.2 ⟨bboxAccesses_within env.want (streamStride d.pendingPipeline),
    texcoordAccesses_within d.pendingPipeline.vtxInputs.length env.want
      (streamStride d.pendingPipeline) ((attrSizes d.pendingPipeline).getD 0 0)⟩
  rw [if_neg hfilled]
  simp only [List.cons_append, List.append_assoc, within_cons, within_append] at hexp hrest ⊢
  have halloc : env.allocates .full 1 = true := by
    cases h : env.allocates .full 1 with
    | true => rfl
    | false => exact absurd h halloc
  simp only [hlog, hexp, hrest, within_nil, Access.Inside, Nat.zero_add, Nat.le_refl, true_and,
    and_true, halloc, hempty, ne_eq, not_false_eq_true, true_implies]
  by_cases hexpands : (singleExpansion env d).isSome = true
  · rw [if_pos hexpands, within_append]
    refine (and_congr ?_ ?_).trans (imp_iff_right hexpands).symm
    · cases env.disableForceW1 with
      | true => exact iff_of_true within_nil fun h => absurd h (by decide)
      | false => exact (forceW1_within_iff hpos (by omega)).trans (imp_iff_right rfl).symm
    · cases env.dumpSpv with
      | false => exact iff_of_true within_nil fun h => absurd h (by decide)
      | true =>
        exact (expansionLog_within_iff hstride hpos hwant).trans (imp_iff_right rfl).symm
  · rw [if_neg hexpands]
    exact iff_of_true within_nil fun h => absurd h hexpands

theorem samples_within_iff (env : StagingEnv) (d : DrawState) :
    Within ((scanned d).flatMap fun c => ⟨.sample, 512, 0, 512⟩ ::
      sampleAccesses (env.read (d.vertexSlot c.1) 512 c.2) (streamStride d.pendingPipeline)) ↔
    ∀ c ∈ scanned d,
      SampleFits (env.read (d.vertexSlot c.1) 512 c.2) (streamStride d.pendingPipeline) := by
  rw [within_flatMap]
  refine forall_congr' fun c => forall_congr' fun _ => ?_
  have hlen := env.read_length (d.vertexSlot c.1) 512 c.2
  rw [within_cons, sampleAccesses_within_iff hlen]
  exact and_iff_right (Nat.zero_add 512).le

theorem expandsSingle_iff {env : StagingEnv} {d : DrawState} {slot mode : Nat}
    (hreach : reachesSingle env d = true) (hpick : pickStream env d = .stream slot mode) :
    ExpandsSingle env d ↔ env.allocates .full 1 = true ∧
      env.read (d.vertexSlot slot) env.want mode ≠ [] ∧
      (singleExpansion env d).isSome = true := by
  rw [ExpandsSingle, hpick]
  constructor
  · intro h
    obtain ⟨-, ⟨slot', mode', heq, hne⟩, halloc, hsome⟩ := h
    cases heq
    exact ⟨halloc, hne, hsome⟩
  · intro h
    exact ⟨hreach, ⟨slot, mode, rfl, h.2.1⟩, h.1, h.2.2⟩

/-- Without a stream to take only the samples count. -/
theorem stagingFits_of_no_stream {env : StagingEnv} {d : DrawState}
    (hreach : reachesSingle env d = true)
    (hpick : ∀ slot mode, pickStream env d ≠ .stream slot mode) :
    StagingFits env d ↔ (slot1Auth env d = false → ∀ c ∈ scanned d,
      SampleFits (env.read (d.vertexSlot c.1) 512 c.2) (streamStride d.pendingPipeline)) := by
  have hnot : ¬ExpandsSingle env d := by
    intro h
    obtain ⟨-, ⟨slot, mode, heq, -⟩, -⟩ := h
    exact hpick slot mode heq
  constructor
  · intro h
    exact h.samples hreach
  · intro h
    exact ⟨fun _ => h, fun he => absurd he hnot, fun he => absurd he hnot⟩

/-- An upload stays inside its host buffers exactly when no w of a narrow vertex is reached
that the sample or the stream does not hold, and the log finds three indices. -/
theorem upload_within_iff (env : StagingEnv) {d : DrawState}
    (hcomp : ∀ a ∈ d.pendingPipeline.vtxInputs, a.2 ≤ 4) :
    Within (uploadAccesses env d) ↔ StagingFits env d := by
  have hmulti : Within (if (d.vertexSlot 0).bound then (multiStreamUpload env d).1 else []) := by
    split_ifs
    · exact multiStreamUpload_within env d
    · exact within_nil
  rw [uploadAccesses, within_append]
  refine (and_iff_right hmulti).trans ?_
  by_cases hreach : reachesSingle env d = true
  · have hsamples : Within (if slot1Auth env d then [] else (scanned d).flatMap fun c =>
        ⟨.sample, 512, 0, 512⟩ ::
          sampleAccesses (env.read (d.vertexSlot c.1) 512 c.2) (streamStride d.pendingPipeline)) ↔
        (slot1Auth env d = false → ∀ c ∈ scanned d,
          SampleFits (env.read (d.vertexSlot c.1) 512 c.2) (streamStride d.pendingPipeline)) := by
      cases slot1Auth env d with
      | true => exact iff_of_true within_nil fun h => absurd h (by decide)
      | false => exact (samples_within_iff env d).trans (imp_iff_right rfl).symm
    rw [if_pos hreach, within_append, hsamples]
    cases hpick : pickStream env d with
    | stream slot mode =>
      have hexpands := expandsSingle_iff hreach hpick
      simp only
      rw [singleStreamUpload_within_iff env slot mode hcomp]
      constructor
      · intro h
        exact ⟨fun _ => h.1, fun he => (h.2 (hexpands.1 he).1 (hexpands.1 he).2.1
          (hexpands.1 he).2.2).1, fun he => (h.2 (hexpands.1 he).1 (hexpands.1 he).2.1
          (hexpands.1 he).2.2).2⟩
      · intro h
        refine ⟨h.samples hreach, fun halloc hne hsome => ?_⟩
        have he := hexpands.2 ⟨halloc, hne, hsome⟩
        exact ⟨h.forced he, h.logged he⟩
    | legacy =>
      exact (and_iff_left within_nil).trans
        (stagingFits_of_no_stream hreach (by simp [hpick])).symm
    | skipped =>
      exact (and_iff_left within_nil).trans
        (stagingFits_of_no_stream hreach (by simp [hpick])).symm
  · rw [if_neg hreach]
    exact iff_of_true within_nil ⟨fun h => absurd h hreach, fun h => absurd h.1 hreach,
      fun h => absurd h.1 hreach⟩

/- Positions of two floats at 0x100000, x being 100.0 or 200.0 and y 1.0, and zeros at
   0x300000: a buffer of indices. The root's entries cover what is below them. -/

def narrowBytes : List UInt8 :=
  [0x00, 0x00, 0xc8, 0x42, 0x00, 0x00, 0x80, 0x3f, 0x00, 0x00, 0x48, 0x43, 0x00, 0x00, 0x80, 0x3f]

def narrowGuest : State :=
  { mem := fun a => if 0x400000 ≤ a then (if a%4 = 3 then 0x80 else 0)
      else if 0x300000 ≤ a then 0
      else if 0x100000 ≤ a then narrowBytes.getD (a%16) 0
      else if a = 4097 then 4 else if a = 4100 then 2 else 0
    world := { backingUpdate := [⟨7, 0x100000⟩, ⟨8, 0x300000⟩] } }

/-- The positions are scored as what they are. -/
def narrowEnv : StagingEnv where
  guest := narrowGuest
  task := openTask
  positions := fun _ _ => 100

/-- Three indices into a stream of stride 8. -/
def narrowDraw : DrawState :=
  { vertexBuffers := [⟨7, 0, true⟩]
    pendingPipeline := { vtxInputs := [(0, 2)] }
    pendingDraw := { indexed := true, indexCount := 3, indexBufferRef := 8 } }

theorem narrowGuest_mapped : AllMapped narrowGuest openTask where
  translates a := by
    have hheader : narrowGuest.readMemory (openTask.rootPagePfn*2^12) 8 =
        some [0, 4, 0, 0, 2, 0, 0, 0] := by decide
    have hfirst : le32 [0, 4, 0, 0, 2, 0, 0, 0] 0 = 0x400 := by decide
    have hlevels : le32 [0, 4, 0, 0, 2, 0, 0, 0] 4 = 2 := by decide
    have hpte : le32 [0, 0, 0, 0x80] 0 = 2^31 := by decide
    have hentry : narrowGuest.readMemory (0x400*2^12+a/2^12/2^((0+1)*10)%1024*4) 4 =
        some [0, 0, 0, 0x80] := by
      have hmem : ∀ i < 4, narrowGuest.mem (0x400*2^12+a/2^12/2^((0+1)*10)%1024*4+i) =
          if i = 3 then 0x80 else 0 := by
        intro i hi
        rw [narrowGuest]
        simp only
        rw [if_pos (by omega)]
        congr 1
        exact propext ⟨fun h => by omega, fun h => by omega⟩
      change some ((List.range 4).map fun i => narrowGuest.mem (_+i)) = _
      rw [List.map_congr_left fun i hi => hmem i (List.mem_range.1 hi)]
      rfl
    rw [taskTranslate, if_neg (by decide), hheader]
    simp only [hfirst, hlevels]
    rw [if_neg (by decide), radixWalk, hentry]
    simp only [hpte]
    rfl
  readable _ _ := rfl

theorem narrow_read (n : Nat) : (narrowEnv.read ⟨7, 0, true⟩ n 0).length = n := by
  obtain ⟨b, hb, hlen⟩ := narrowGuest_mapped.taskReadVirtual (show 0x100000 < 2^64 by decide) n
  change ((taskReadVirtual narrowGuest openTask 0x100000 n).getD _).length = n
  rw [hb]
  exact hlen

theorem narrow_pick : pickStream narrowEnv narrowDraw = .stream 0 0 := by
  have hfirst : sampleScore narrowEnv narrowDraw (0, 0) = 1100 := by
    have hslot : narrowDraw.vertexSlot 0 = ⟨7, 0, true⟩ := rfl
    have hne : narrowEnv.read ⟨7, 0, true⟩ 512 0 ≠ [] :=
      List.ne_nil_of_length_pos (by rw [narrow_read]; decide)
    simp only [sampleScore, hslot]
    exact (if_neg hne).trans (if_pos (by decide))
  have hsecond : sampleScore narrowEnv narrowDraw (0, 1) = 0 := rfl
  have hscan : scanned narrowDraw = [(0, 0), (0, 1)] := by decide
  have hbest : bestScored narrowEnv narrowDraw = some ((0, 0), 1100) := by
    rw [bestScored, hscan, List.foldl_cons, List.foldl_cons, List.foldl_nil]
    simp [hfirst, hsecond]
  rw [pickStream, if_neg (by decide), hbest]
  rfl

/-- The w of the last of 8192 vertices, which is where the next y would be. -/
theorem narrow_outside : ¬Within (uploadAccesses narrowEnv narrowDraw) := by
  intro h
  have hreach : reachesSingle narrowEnv narrowDraw = true := rfl
  have hsingle := (within_append.1 h).2
  rw [if_pos hreach, narrow_pick] at hsingle
  have hfits := (singleStreamUpload_within_iff narrowEnv 0 0 (by decide)).1
    (within_append.1 hsingle).2 rfl
    (List.ne_nil_of_length_pos (by change 0 < (narrowEnv.read ⟨7, 0, true⟩ 65536 0).length
                                   rw [narrow_read]; decide))
    (by decide)
  exact absurd (hfits.1 rfl) (by decide)

/-- A float4 position and a texcoord, indexed, from slot 1. -/
def wideDraw : DrawState :=
  { narrowDraw with
    vertexBuffers := [⟨7, 0, true⟩, ⟨7, 0, true⟩]
    pendingPipeline := { vtxInputs := [(0, 4), (1, 2)] } }

theorem wide_within : Within (uploadAccesses narrowEnv wideDraw) :=
  (upload_within_iff narrowEnv (by decide)).2 ⟨fun _ h => absurd h (by decide),
    fun _ _ => by decide, fun _ h => absurd h (by decide)⟩

end Lagfx
