import Lagfx.VertexSource

/-! The pipeline a draw gets: the description it is built from, and the pipeline kept from
one draw to the next. The debug variables of the environment are unset. -/
namespace Lagfx
open Runs

/-- lagfx_pipeline_desc_t; no layout stands for the empty layout of the device. -/
structure PipelineDesc where
  vertexShader : Option ShaderModule
  fragmentShader : Option ShaderModule
  layout : Option VkLayout
  vertexEntryPoint : String
  fragmentEntryPoint : String
  colorFormat : Nat
  depthFormat : Nat
  vtxInputs : List (Nat × Nat) := []
  vtxStride : Nat := 0
  psoAttrs : List (Nat × Nat) := []
deriving DecidableEq

def PendingPipeline.vtxInputOn (pp : PendingPipeline) : Prop :=
  pp.translated = true ∧ pp.vtxInputs ≠ []

instance (pp : PendingPipeline) : Decidable pp.vtxInputOn := inferInstanceAs (Decidable (_ ∧ _))

/- The attribute at offset 0 is implicit in the descriptor, and put in front when the list
   is one short; a list that starts elsewhere is not used. -/
def psoAttrsOf (pp : PendingPipeline) : List (Nat × Nat) :=
  match pp.vtxAttrs with
  | [] => []
  | a :: as =>
    if (a :: as).length < 8 ∧ a.2 ≠ 0 ∧ (a :: as).length+1 = pp.vtxInputs.length then
      (31, 0) :: a :: as
    else if a.2 = 0 then a :: as
    else []

/-- The description of a draw; separate streams are interleaved at the tight layout. -/
def pipelineDesc (d : DrawState) : PipelineDesc :=
  let pp := d.pendingPipeline
  { vertexShader := pp.vertexShader
    fragmentShader := pp.fragmentShader
    layout := if pp.translated = true then pp.pipelineLayout else none
    vertexEntryPoint := if pp.translated = true then "main" else "triangle_vertex"
    fragmentEntryPoint := if pp.translated = true then "main" else "triangle_fragment"
    colorFormat := d.renderPass.colorFormat
    depthFormat := d.renderPass.depthFormat
    vtxInputs := if pp.vtxInputOn then pp.vtxInputs else []
    vtxStride := if pp.vtxInputOn then (if vtxMultiStream d = true then 0 else pp.vtxStride) else 0
    psoAttrs := if pp.vtxInputOn then psoAttrsOf pp else [] }

/-- The commands that neither draw nor set the pipeline. -/
def stateOps : List ComputeInnerOp :=
  [opRenderDescribeRenderPass, opSetVertexBuffers, opSetVertexBufferOffset, opSetFragmentBuffers,
    opSetFragmentBufferOffset, opSetFragmentTextures, opSetFragmentSamplerStates, opSetScissorRect,
    opSetViewport, opRenderBarrierScope]

/- Commands for one task: any of `stateOps` with its body and the guest it meets, a
   SetRenderPipelineState with its answers, a draw that reaches the device or not and
   whose build, if it needs one, succeeds or not. -/
inductive TaskCommand where
  | state (op : ComputeInnerOp) (h : op ∈ stateOps) (env : InnerEnv) (body : List UInt8)
      (task : TaskEntry)
  | setPipeline (texcomp loaded : Bool) (reference : Nat) (o : SetOutcome)
  | draw (reached built : Bool)

/- `builtFrom` keeps for each pipeline created the entry it was described from. -/
structure CacheWorld where
  draw : DrawState := {}
  handles : Handles := ⟨0, 0⟩
  builtFrom : Nat → Option DrawState := fun _ => none

/-- The draw gets as far as lagfx_get_cached_pipeline. -/
def CacheWorld.draws (w : CacheWorld) (reached : Bool) : Prop :=
  w.draw.pendingPipeline.valid = true ∧ w.draw.renderPass.valid = true ∧ reached = true

instance (w : CacheWorld) (reached : Bool) : Decidable (w.draws reached) :=
  inferInstanceAs (Decidable (_ ∧ _ ∧ _))

/-- The cached pipeline is taken for these formats. -/
def PendingPipeline.hit (pp : PendingPipeline) (colorFmt depthFmt : Nat) : Prop :=
  pp.cachedPipeline.isSome ∧ pp.cachedColorFmt = colorFmt ∧ pp.cachedDepthFmt = depthFmt

instance (pp : PendingPipeline) (colorFmt depthFmt : Nat) : Decidable (pp.hit colorFmt depthFmt) :=
  inferInstanceAs (Decidable (_ ∧ _ ∧ _))

/-- lagfx_get_cached_pipeline for the draw's description; what it returns is then cached. -/
def CacheWorld.getCached (w : CacheWorld) (built : Bool) : CacheWorld :=
  let desc := pipelineDesc w.draw
  let pp := w.draw.pendingPipeline
  let r := getCachedPipeline w.handles pp desc.colorFormat desc.depthFormat built
  { draw := { w.draw with pendingPipeline := r.2 }
    handles := r.1
    builtFrom := if pp.hit desc.colorFormat desc.depthFormat ∨ built = false then w.builtFrom
      else Function.update w.builtFrom w.handles.next (some w.draw) }

def pipelineCacheStep (w : CacheWorld) : TaskCommand → CacheWorld
  | .state op _ env body task =>
    if op.accepts body = true then { w with draw := op.effect env body task w.draw } else w
  | .setPipeline texcomp loaded reference o =>
    let r := setRenderPipelineState texcomp loaded w.handles reference o w.draw.pendingPipeline
    { w with draw := { w.draw with pendingPipeline := r.2 }, handles := r.1 }
  | .draw reached built => if w.draws reached then w.getCached built else w

/-- The pipeline a draw gets was built from the description of this draw. -/
def Transparent (w : CacheWorld) : TaskCommand → Prop
  | .draw reached built =>
    w.draws reached → ∀ n, (w.getCached built).draw.pendingPipeline.cachedPipeline = some n →
      ((w.getCached built).builtFrom n).map pipelineDesc = some (pipelineDesc w.draw)
  | _ => True

/- When a draw takes a pipeline kept from before, the streams are separate exactly when
   they were at the draw it was built for; without a stride, or vertex inputs, that is
   of no account. -/
def CacheSteady (w : CacheWorld) : TaskCommand → Prop
  | .draw reached _ =>
    w.draws reached → w.draw.pendingPipeline.vtxInputOn → w.draw.pendingPipeline.vtxStride ≠ 0 →
      ∀ n before, w.draw.pendingPipeline.cachedPipeline = some n → w.builtFrom n = some before →
        before.renderPass.colorFormat = w.draw.renderPass.colorFormat →
        before.renderPass.depthFormat = w.draw.renderPass.depthFormat →
        vtxMultiStream before = vtxMultiStream w.draw
  | _ => True

/-- What the cache adds to a pending pipeline. -/
def PendingPipeline.uncached (pp : PendingPipeline) : PendingPipeline :=
  { pp with cachedPipeline := none, cachedColorFmt := 0, cachedDepthFmt := 0 }

/-- The pipeline kept was built for the pending pipeline as it is, at the formats kept. -/
def CacheWorld.Kept (w : CacheWorld) : Prop :=
  ∀ n, w.draw.pendingPipeline.cachedPipeline = some n → ∃ before, w.builtFrom n = some before ∧
    before.pendingPipeline.uncached = w.draw.pendingPipeline.uncached ∧
    before.renderPass.colorFormat = w.draw.pendingPipeline.cachedColorFmt ∧
    before.renderPass.depthFormat = w.draw.pendingPipeline.cachedDepthFmt

theorem stateOp_pendingPipeline {op : ComputeInnerOp} (h : op ∈ stateOps) (env : InnerEnv)
    (body : List UInt8) (task : TaskEntry) (d : DrawState) :
    (op.effect env body task d).pendingPipeline = d.pendingPipeline := by
  simp only [stateOps, List.mem_cons, List.not_mem_nil, or_false] at h
  obtain rfl | rfl | rfl | rfl | rfl | rfl | rfl | rfl | rfl | rfl := h
  · rfl
  · rfl
  · rfl
  · rfl
  · rfl
  · rfl
  · rfl
  · simp only [opSetScissorRect]
    split_ifs <;> rfl
  · simp only [opSetViewport]
    split_ifs <;> rfl
  · rfl

/-- A pipeline that is set is either the one before or starts without a cache. -/
theorem setRenderPipelineState_cache (texcomp loaded : Bool) (h : Handles) (reference : Nat)
    (o : SetOutcome) (pp : PendingPipeline) :
    (setRenderPipelineState texcomp loaded h reference o pp).2 = pp ∨
      (setRenderPipelineState texcomp loaded h reference o pp).2.cachedPipeline = none := by
  rw [setRenderPipelineState]
  obtain ⟨h', c⟩ := translate h o
  cases c with
  | some c => exact .inr (by simp [commitTranslated])
  | none =>
    cases loaded with
    | true => exact .inr (by simp [commitSubstitute])
    | false => exact .inl rfl

theorem strides_eq_iff (on : Prop) [Decidable on] (stride : Nat) (m m' : Bool) :
    (if on then (if m = true then 0 else stride) else 0) =
        (if on then (if m' = true then 0 else stride) else 0) ↔ (on → stride ≠ 0 → m = m') := by
  by_cases hon : on
  · simp only [if_pos hon, imp_iff_right hon]
    cases m <;> cases m' <;> simp [eq_comm]
  · simp [hon]

/-- For one pipeline and one pair of formats, two descriptions differ in the stride only. -/
theorem pipelineDesc_eq_iff {d d' : DrawState}
    (hpp : d.pendingPipeline.uncached = d'.pendingPipeline.uncached)
    (hc : d.renderPass.colorFormat = d'.renderPass.colorFormat)
    (hd : d.renderPass.depthFormat = d'.renderPass.depthFormat) :
    pipelineDesc d = pipelineDesc d' ↔
      (d'.pendingPipeline.vtxInputOn → d'.pendingPipeline.vtxStride ≠ 0 →
        vtxMultiStream d = vtxMultiStream d') := by
  have hdesc : ∀ e : DrawState, pipelineDesc e =
      { pipelineDesc { d' with pendingPipeline := e.pendingPipeline.uncached } with
        colorFormat := e.renderPass.colorFormat
        depthFormat := e.renderPass.depthFormat
        vtxStride := if e.pendingPipeline.uncached.vtxInputOn then
            (if vtxMultiStream e = true then 0 else e.pendingPipeline.uncached.vtxStride)
          else 0 } := by
    intro e
    rfl
  rw [hdesc d, hdesc d', hpp, hc, hd, PipelineDesc.mk.injEq]
  simp only [true_and, and_true]
  exact strides_eq_iff d'.pendingPipeline.vtxInputOn d'.pendingPipeline.vtxStride _ _

theorem getCachedPipeline_uncached (h : Handles) (pp : PendingPipeline) (colorFmt depthFmt : Nat)
    (built : Bool) :
    (getCachedPipeline h pp colorFmt depthFmt built).2.uncached = pp.uncached := by
  obtain ⟨cache, color, depth, hsnd⟩ := getCachedPipeline_tables h pp colorFmt depthFmt built
  rw [hsnd]
  rfl

@[simp] theorem pipelineDesc_colorFormat (d : DrawState) :
    (pipelineDesc d).colorFormat = d.renderPass.colorFormat := rfl

@[simp] theorem pipelineDesc_depthFormat (d : DrawState) :
    (pipelineDesc d).depthFormat = d.renderPass.depthFormat := rfl

theorem dropCache_next (h : Handles) (pp : PendingPipeline) : (dropCache h pp).1.next = h.next := by
  cases hc : pp.cachedPipeline <;> simp [dropCache, hc, Handles.destroy]

/-- The formats of the draw are those of the kept pipeline. -/
def CacheWorld.Hit (w : CacheWorld) : Prop :=
  w.draw.pendingPipeline.hit w.draw.renderPass.colorFormat w.draw.renderPass.depthFormat

theorem CacheWorld.getCached_hit {w : CacheWorld} (hhit : w.Hit) (built : Bool) :
    w.getCached built = w := by
  have hdesc : w.draw.pendingPipeline.hit (pipelineDesc w.draw).colorFormat
      (pipelineDesc w.draw).depthFormat := hhit
  have hget : getCachedPipeline w.handles w.draw.pendingPipeline (pipelineDesc w.draw).colorFormat
      (pipelineDesc w.draw).depthFormat built = (w.handles, w.draw.pendingPipeline) := if_pos hhit
  simp only [CacheWorld.getCached, hget]
  rw [if_pos (Or.inl hdesc)]

/-- A failed build leaves nothing cached. -/
theorem CacheWorld.getCached_failed {w : CacheWorld} (hhit : ¬ w.Hit) :
    (w.getCached false).draw.pendingPipeline.cachedPipeline = none := by
  have hget : getCachedPipeline w.handles w.draw.pendingPipeline (pipelineDesc w.draw).colorFormat
      (pipelineDesc w.draw).depthFormat false = dropCache w.handles w.draw.pendingPipeline :=
    if_neg hhit
  simp only [CacheWorld.getCached, hget]
  exact dropCache_cached w.handles w.draw.pendingPipeline

/-- A pipeline that is built is a new one, from the entry as it is. -/
theorem CacheWorld.getCached_built {w : CacheWorld} (hhit : ¬ w.Hit) :
    (w.getCached true).draw.pendingPipeline =
        { (dropCache w.handles w.draw.pendingPipeline).2 with
          cachedPipeline := some w.handles.next
          cachedColorFmt := w.draw.renderPass.colorFormat
          cachedDepthFmt := w.draw.renderPass.depthFormat } ∧
      (w.getCached true).builtFrom w.handles.next = some w.draw := by
  have hdesc : ¬ (w.draw.pendingPipeline.hit (pipelineDesc w.draw).colorFormat
      (pipelineDesc w.draw).depthFormat ∨ true = false) := by
    intro h
    obtain h | h := h
    · exact hhit h
    · exact absurd h (by decide)
  constructor
  · have hget : (getCachedPipeline w.handles w.draw.pendingPipeline
        (pipelineDesc w.draw).colorFormat (pipelineDesc w.draw).depthFormat true).2 =
        { (dropCache w.handles w.draw.pendingPipeline).2 with
          cachedPipeline := some (dropCache w.handles w.draw.pendingPipeline).1.next
          cachedColorFmt := (pipelineDesc w.draw).colorFormat
          cachedDepthFmt := (pipelineDesc w.draw).depthFormat } := congrArg Prod.snd (if_neg hhit)
    rw [dropCache_next] at hget
    exact hget
  · simp only [CacheWorld.getCached]
    rw [if_neg hdesc]
    exact Function.update_self _ _ _

/-- A draw keeps what the pipeline kept was built for. -/
theorem CacheWorld.Kept.getCached {w : CacheWorld} (hw : w.Kept) (built : Bool) :
    (w.getCached built).Kept := by
  by_cases hhit : w.Hit
  · rw [CacheWorld.getCached_hit hhit]
    exact hw
  intro n hn
  cases built with
  | false => exact absurd ((CacheWorld.getCached_failed hhit).symm.trans hn) (by simp)
  | true =>
    have hpp := getCachedPipeline_uncached w.handles w.draw.pendingPipeline
      w.draw.renderPass.colorFormat w.draw.renderPass.depthFormat true
    obtain ⟨hcache, hfrom⟩ := CacheWorld.getCached_built hhit
    rw [hcache] at hn ⊢
    obtain rfl : w.handles.next = n := by simpa using hn
    rw [← hcache]
    refine ⟨w.draw, hfrom, hpp.symm, ?_, ?_⟩
    · rw [hcache]
    · rw [hcache]

theorem pipelineCacheStep_kept (w : CacheWorld) (c : TaskCommand) (hw : w.Kept) :
    (pipelineCacheStep w c).Kept := by
  cases c with
  | state op h env body task =>
    rw [pipelineCacheStep]
    by_cases ha : op.accepts body = true
    · rw [if_pos ha]
      have hpp := stateOp_pendingPipeline h env body task w.draw
      intro n hn
      simp only [hpp] at hn ⊢
      exact hw n hn
    · rw [if_neg ha]
      exact hw
  | setPipeline texcomp loaded reference o =>
    intro n hn
    obtain hsame | hnone := setRenderPipelineState_cache texcomp loaded w.handles reference o
      w.draw.pendingPipeline
    · simp only [pipelineCacheStep, hsame] at hn ⊢
      exact hw n hn
    · exact absurd (hnone.symm.trans hn) (by simp)
  | draw reached built =>
    rw [pipelineCacheStep]
    by_cases hd : w.draws reached
    · rw [if_pos hd]
      exact hw.getCached built
    · rw [if_neg hd]
      exact hw

/-- One draw is transparent exactly when the streams are as they were for the cache. -/
theorem transparent_step_iff (w : CacheWorld) (c : TaskCommand) (hw : w.Kept) :
    Transparent w c ↔ CacheSteady w c := by
  cases c with
  | state op h env body task => exact Iff.rfl
  | setPipeline texcomp loaded reference o => exact Iff.rfl
  | draw reached built =>
    rw [Transparent, CacheSteady]
    refine imp_congr_right fun hd => ?_
    by_cases hhit : w.Hit
    · obtain ⟨hsome, hc, hdep⟩ := id hhit
      obtain ⟨n, hn⟩ := Option.isSome_iff_exists.mp hsome
      obtain ⟨before, hfrom, hpp, hbc, hbd⟩ := hw n hn
      have hiff := pipelineDesc_eq_iff hpp (hbc.trans hc) (hbd.trans hdep)
      rw [CacheWorld.getCached_hit hhit]
      constructor
      · intro h hon hstride m d hm hfrom' _ _
        obtain rfl : n = m := by simpa [hn] using hm
        obtain rfl : before = d := by simpa [hfrom] using hfrom'
        have hmap := h n hn
        rw [hfrom, Option.map_some, Option.some_inj] at hmap
        exact hiff.1 hmap hon hstride
      · intro h m hm
        obtain rfl : n = m := by simpa [hn] using hm
        rw [hfrom, Option.map_some]
        refine congrArg some (hiff.2 ?_)
        intro hon hstride
        exact h hon hstride n before hn hfrom (hbc.trans hc) (hbd.trans hdep)
    · refine iff_of_true ?_ ?_
      · intro n hn
        cases built with
        | false => exact absurd ((CacheWorld.getCached_failed hhit).symm.trans hn) (by simp)
        | true =>
          obtain ⟨hcache, hfrom⟩ := CacheWorld.getCached_built hhit
          rw [hcache] at hn
          obtain rfl : w.handles.next = n := by simpa using hn
          rw [hfrom, Option.map_some]
      · intro _ _ n before hn hfrom hc hdep
        obtain ⟨before', hfrom', -, hbc, hbd⟩ := hw n hn
        obtain rfl : before = before' := by simpa [hfrom] using hfrom'
        refine absurd ⟨?_, hbc.symm.trans hc, hbd.symm.trans hdep⟩ hhit
        rw [hn]
        rfl

/-- The cache is transparent in a run exactly when each draw that takes a kept pipeline
meets the streams it was built for. -/
theorem cache_transparent_iff (cs : List TaskCommand) :
    AllSteps pipelineCacheStep Transparent {} cs ↔
      AllSteps pipelineCacheStep CacheSteady {} cs := by
  refine allSteps_iff pipelineCacheStep transparent_step_iff
    (fun w c hw _ => pipelineCacheStep_kept w c hw) cs {} ?_
  intro n hn
  exact absurd hn (by simp)

/-- Two attributes of two floats, in a vertex of 48 bytes. -/
def twoFloat2 : SetOutcome where
  enabled := true
  vertex := some ⟨[], false, [(0, 2), (1, 2)], [], 48, []⟩
  fragment := some ⟨[], false, [], [], 0, []⟩
  descriptorSetLayoutOk := true
  pipelineLayoutOk := true
  poolReady := true

/-- A SetVertexBuffers body of one entry, for the object 5. -/
def bindVertexSlot (i : UInt8) : TaskCommand :=
  .state opSetVertexBuffers (by simp [stateOps]) {}
    ([i, 0, 0, 0, 1, 0, 0, 0, 5, 0, 0, 0]++List.replicate 8 0) {}

/-- The stream at slot 1 is bound after the first draw. -/
def rebindRun : List TaskCommand :=
  [.setPipeline true true 7 twoFloat2,
    .state opRenderDescribeRenderPass (by simp [stateOps]) {} (List.replicate 48 0) {},
    bindVertexSlot 0, .draw true true, bindVertexSlot 1, .draw true true]

theorem rebound_stream_not_transparent : ¬ AllSteps pipelineCacheStep Transparent {} rebindRun := by
  intro h
  have hlast := h.2.2.2.2.2.1 (by decide) 2 rfl
  have hstride := congrArg (Option.map PipelineDesc.vtxStride) hlast
  exact absurd hstride (by decide)

end Lagfx
