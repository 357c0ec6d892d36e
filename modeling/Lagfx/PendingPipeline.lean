import Mathlib.Data.Multiset.Range
import Lagfx.Lib.Runs
import Lagfx.Lib.SlotTable

/-! The pending pipeline of a task: the Vulkan objects SetRenderPipelineState and the
draws create for it, who destroys them, and the tables that describe the shader pair
stored in it. Lookups, translation and Vulkan answer through `SetOutcome`. -/
namespace Lagfx
open SlotTable Runs

inductive SpvBindingKind where
  | unknown
  | sampledImage
  | sampler
  | storageBuffer
deriving DecidableEq, Repr

structure SpvBinding where
  set : Nat
  binding : Nat
  kind : SpvBindingKind
deriving DecidableEq, Repr

/- What is read of a translated stage: its reflection, the Metal index of each resource
   argument, and the vertex layout the pipeline descriptor gives for it. -/
structure Spv where
  bindings : List SpvBinding
  hasImageSample : Bool
  vertexInputs : List (Nat × Nat)
  argBindings : List Int
  psoStride : Nat
  psoAttrs : List (Nat × Nat)
deriving DecidableEq, Repr

/-- The triangle modules are the device's own; the others were created here. -/
inductive ShaderModule where
  | bundled
  | created (handle : Nat) (spv : Spv)
deriving DecidableEq, Repr

def ShaderModule.handle? : ShaderModule → Option Nat
  | .bundled => none
  | .created handle _ => some handle

/-- A descriptor-set or pipeline layout and the bindings it was built from. -/
structure VkLayout where
  handle : Nat
  bindings : List SpvBinding
deriving DecidableEq, Repr

structure BoundBinding where
  no : Nat
  kind : SpvBindingKind
  metal : Int
deriving DecidableEq, Repr

structure PendingPipeline where
  valid : Bool := false
  vertexShader : Option ShaderModule := none
  fragmentShader : Option ShaderModule := none
  reference : Nat := 0
  translated : Bool := false
  descriptorSetLayout : Option VkLayout := none
  pipelineLayout : Option VkLayout := none
  spvBindings : List BoundBinding := []
  vtxInputs : List (Nat × Nat) := []
  vtxStride : Nat := 0
  vtxAttrs : List (Nat × Nat) := []
  cachedPipeline : Option Nat := none
  cachedColorFmt : Nat := 0
  cachedDepthFmt : Nat := 0
deriving DecidableEq, Repr

/- Handles are handed out in order; every vkDestroy is recorded. -/
structure Handles where
  next : Nat
  destroyed : Multiset Nat

def Handles.create (h : Handles) : Handles := { h with next := h.next+1 }

def Handles.destroy (h : Handles) (o : Option Nat) : Handles :=
  { h with destroyed := h.destroyed+held o }

def shaderHandle (m : Option ShaderModule) : Option Nat := m.bind ShaderModule.handle?

def layoutHandle (l : Option VkLayout) : Option Nat := l.map VkLayout.handle

/-- What a pending pipeline stores of what was created here. -/
def PendingPipeline.owned (pp : PendingPipeline) : Multiset Nat :=
  held (shaderHandle pp.vertexShader)+held (shaderHandle pp.fragmentShader)+
    held (layoutHandle pp.pipelineLayout)+held (layoutHandle pp.descriptorSetLayout)+
    held pp.cachedPipeline

def dropCache (h : Handles) (pp : PendingPipeline) : Handles × PendingPipeline :=
  match pp.cachedPipeline with
  | none => (h, pp)
  | some _ => (h.destroy pp.cachedPipeline,
      { pp with cachedPipeline := none, cachedColorFmt := 0, cachedDepthFmt := 0 })

/-- `built` is what lagfx_pipeline_build answers. -/
def getCachedPipeline (h : Handles) (pp : PendingPipeline) (colorFmt depthFmt : Nat)
    (built : Bool) : Handles × PendingPipeline :=
  if pp.cachedPipeline.isSome ∧ pp.cachedColorFmt = colorFmt ∧ pp.cachedDepthFmt = depthFmt then
    (h, pp)
  else
    let r := dropCache h pp
    if built then (r.1.create, { r.2 with
        cachedPipeline := some r.1.next
        cachedColorFmt := colorFmt
        cachedDepthFmt := depthFmt })
    else r

def maxDescBindings : Nat := 32
def fragBindingBase : Nat := 16
def maxVtxInputs : Nat := 8

/-- The union over the stages in set 0: the first of each binding number, at most 32. -/
def mergeBindings (l : List SpvBinding) : List SpvBinding :=
  l.foldl (fun rb t => if t.set ≠ 0 ∨ rb.any (·.binding = t.binding) ∨ maxDescBindings ≤ rb.length
    then rb else rb ++ [t]) []

def reflected (v f : Spv) : List SpvBinding :=
  v.bindings.take maxDescBindings ++ f.bindings.take maxDescBindings

/-- The bindings lagfx_build_pipeline_layout_from_spv makes a layout of. -/
def layoutBindings (v f : Spv) : List SpvBinding :=
  mergeBindings ((reflected v f).filter fun t => t.kind ≠ .unknown)

/- Answers of one SetRenderPipelineState: the gate with the function refs of the
   descriptor, each stage up to its VkShaderModule, the two layouts, and whether there
   is a descriptor pool. -/
structure SetOutcome where
  enabled : Bool
  vertex : Option Spv
  fragment : Option Spv
  descriptorSetLayoutOk : Bool
  pipelineLayoutOk : Bool
  poolReady : Bool
deriving DecidableEq, Repr

def SetOutcome.layoutOk (o : SetOutcome) (v f : Spv) : Prop :=
  layoutBindings v f = [] ∨ o.descriptorSetLayoutOk = true ∧ o.pipelineLayoutOk = true

def SetOutcome.hasResources (o : SetOutcome) (v f : Spv) : Prop :=
  o.layoutOk v f ∧ layoutBindings v f ≠ []

/-- The draw site can satisfy every binding, and no sampled texture was lost. -/
def SetOutcome.drawable (o : SetOutcome) (v f : Spv) : Prop :=
  o.hasResources v f ∧ mergeBindings (reflected v f) ≠ [] ∧ o.poolReady = true ∧
    (∀ t ∈ mergeBindings (reflected v f), t.kind ≠ .unknown) ∧
    ¬ (f.hasImageSample = true ∧ ∀ t ∈ mergeBindings (reflected v f), t.kind ≠ .sampledImage)

instance (o : SetOutcome) (v f : Spv) : Decidable (o.layoutOk v f) :=
  inferInstanceAs (Decidable (_ ∨ _))

instance (o : SetOutcome) (v f : Spv) : Decidable (o.hasResources v f) :=
  inferInstanceAs (Decidable (_ ∧ _))

instance (o : SetOutcome) (v f : Spv) : Decidable (o.drawable v f) :=
  inferInstanceAs (Decidable (_ ∧ _))

/-- The Metal index of a binding, by its ordinal in its own stage; -1 is unknown. -/
def metalIndex (texcomp : Bool) (v f : Spv) (b : Nat) : Int :=
  if texcomp = true ∧ fragBindingBase ≤ b then f.argBindings.getD (b-fragBindingBase) (-1)
  else v.argBindings.getD b (-1)

def boundBindings (texcomp : Bool) (v f : Spv) : List BoundBinding :=
  (mergeBindings (reflected v f)).map fun t =>
    ⟨t.binding%256, t.kind, metalIndex texcomp v f t.binding⟩

/-- The stage-in attributes as the record holds them, locations and widths in bytes. -/
def vtxInputsOf (v : Spv) : List (Nat × Nat) :=
  (v.vertexInputs.take maxVtxInputs).map fun a => (a.1%256, a.2%256)

def vtxStrideOf (v : Spv) : Nat := if vtxInputsOf v = [] then 0 else v.psoStride

def vtxAttrsOf (v : Spv) : List (Nat × Nat) :=
  if vtxInputsOf v = [] then [] else v.psoAttrs.take maxVtxInputs

/-- lagfx_build_pipeline_layout_from_spv. -/
def buildPipelineLayout (h : Handles) (o : SetOutcome) (v f : Spv) :
    Handles × Option (VkLayout × VkLayout) :=
  if layoutBindings v f = [] then (h, none)
  else if o.descriptorSetLayoutOk = false then (h, none)
  else if o.pipelineLayoutOk = false then (h.create.destroy (some h.next), none)
  else (h.create.create, some (⟨h.next, layoutBindings v f⟩, ⟨h.next+1, layoutBindings v f⟩))

/- A translated pair ready to be stored, with its layouts when it is drawable. -/
structure Translation where
  vertex : ShaderModule
  fragment : ShaderModule
  v : Spv
  f : Spv
  layouts : Option (VkLayout × VkLayout)

/-- Both stages, the reflection and the decision whether the pair can be drawn. -/
def translatePair (h : Handles) (o : SetOutcome) (v f : Spv) : Handles × Option Translation :=
  let vMod := ShaderModule.created h.next v
  let fMod := ShaderModule.created (h.next+1) f
  let r := buildPipelineLayout h.create.create o v f
  let destroyLayouts (h : Handles) : Handles :=
    (h.destroy (r.2.map fun l => l.1.handle)).destroy (r.2.map fun l => l.2.handle)
  if o.hasResources v f ∧ ¬ o.drawable v f then
    (destroyLayouts ((r.1.destroy vMod.handle?).destroy fMod.handle?), none)
  else if o.drawable v f then (r.1, some ⟨vMod, fMod, v, f, r.2⟩)
  else (destroyLayouts r.1, some ⟨vMod, fMod, v, f, none⟩)

/-- The stage loop stops at the first stage that fails. -/
def translate (h : Handles) (o : SetOutcome) : Handles × Option Translation :=
  if o.enabled = false then (h, none)
  else
    match o.vertex, o.fragment with
    | none, _ => (h, none)
    | some _, none => (h.create.destroy (some h.next), none)
    | some v, some f => translatePair h o v f

/-- Free what a translated pipeline stores before it is overwritten. -/
def destroyTranslated (h : Handles) (pp : PendingPipeline) : Handles :=
  if pp.translated = true then
    (((h.destroy (shaderHandle pp.vertexShader)).destroy (shaderHandle pp.fragmentShader)).destroy
      (layoutHandle pp.pipelineLayout)).destroy (layoutHandle pp.descriptorSetLayout)
  else h

def commitTranslated (texcomp : Bool) (h : Handles) (reference : Nat) (pp : PendingPipeline)
    (c : Translation) : Handles × PendingPipeline :=
  let r := dropCache (destroyTranslated h pp) pp
  (r.1, { r.2 with
    valid := true
    translated := true
    vertexShader := some c.vertex
    fragmentShader := some c.fragment
    reference := reference
    vtxInputs := vtxInputsOf c.v
    vtxStride := vtxStrideOf c.v
    vtxAttrs := vtxAttrsOf c.v
    descriptorSetLayout := c.layouts.map Prod.fst
    pipelineLayout := c.layouts.map Prod.snd
    spvBindings := if c.layouts.isSome then boundBindings texcomp c.v c.f else [] })

/-- The substitute path frees the modules but neither layout, and keeps the tables. -/
def commitSubstitute (h : Handles) (reference : Nat) (pp : PendingPipeline) :
    Handles × PendingPipeline :=
  let h := if pp.translated = true
    then (h.destroy (shaderHandle pp.vertexShader)).destroy (shaderHandle pp.fragmentShader) else h
  let r := dropCache h pp
  (r.1, { r.2 with
    valid := true
    translated := false
    vertexShader := some .bundled
    fragmentShader := some .bundled
    reference := reference })

/-- SetRenderPipelineState on the pending pipeline of its task. -/
def setRenderPipelineState (texcomp loaded : Bool) (h : Handles) (reference : Nat) (o : SetOutcome)
    (pp : PendingPipeline) : Handles × PendingPipeline :=
  match translate h o with
  | (h, some c) => commitTranslated texcomp h reference pp c
  | (h, none) => if loaded = true then commitSubstitute h reference pp else (h, pp)

structure PipelineTask where
  live : Bool
  pending : PendingPipeline
deriving DecidableEq

/- `texcomp` is the M1_TEXCOMP policy, `loaded` whether both triangle modules are. -/
structure PipelineWorld where
  texcomp : Bool
  loaded : Bool
  handles : Handles
  tasks : List PipelineTask

inductive PipelineEvent where
  | define (slot : Nat)
  | setPipeline (slot reference : Nat) (o : SetOutcome)
  | draw (slot colorFmt depthFmt : Nat) (reached built : Bool)
  | deleteTask (slot : Nat)

def PipelineWorld.store (w : PipelineWorld) (slot : Nat) (r : Handles × PendingPipeline) :
    PipelineWorld :=
  { w with handles := r.1, tasks := w.tasks.set slot ⟨true, r.2⟩ }

/-- One command. A slot is allocated and freed by memset, which destroys nothing. -/
def pipelineStep (w : PipelineWorld) : PipelineEvent → PipelineWorld
  | .define slot =>
    match w.tasks[slot]? with
    | some ⟨false, _⟩ => { w with tasks := w.tasks.set slot ⟨true, {}⟩ }
    | _ => w
  | .setPipeline slot reference o =>
    match w.tasks[slot]? with
    | some ⟨true, pp⟩ =>
      w.store slot (setRenderPipelineState w.texcomp w.loaded w.handles reference o pp)
    | _ => w
  | .draw slot colorFmt depthFmt reached built =>
    match w.tasks[slot]? with
    | some ⟨true, pp⟩ =>
      if pp.valid = true ∧ reached = true
      then w.store slot (getCachedPipeline w.handles pp colorFmt depthFmt built) else w
    | _ => w
  | .deleteTask slot =>
    match w.tasks[slot]? with
    | some ⟨true, _⟩ => { w with tasks := w.tasks.set slot ⟨false, {}⟩ }
    | _ => w

/-- No object created yet, and nothing pending. -/
def pipelineStart (texcomp loaded : Bool) (live : List Bool) : PipelineWorld :=
  ⟨texcomp, loaded, ⟨0, 0⟩, live.map fun b => ⟨b, {}⟩⟩

/- What is owned: the handles created are those destroyed and those still stored,
   each exactly once. -/

def PipelineTask.owned (t : PipelineTask) : Multiset Nat :=
  if t.live = true then t.pending.owned else 0

def Handles.Account (h : Handles) (stored : Multiset Nat) : Prop :=
  h.destroyed+stored = Multiset.range h.next

def PipelineWorld.Owned (w : PipelineWorld) : Prop :=
  w.handles.Account (w.tasks.map PipelineTask.owned).sum

/-- The tables beside the shader pair. -/
structure PipelineTables where
  descriptorSetLayout : Option (List SpvBinding) := none
  pipelineLayout : Option (List SpvBinding) := none
  spvBindings : List BoundBinding := []
  vtxInputs : List (Nat × Nat) := []
  vtxStride : Nat := 0
  vtxAttrs : List (Nat × Nat) := []
deriving DecidableEq

def PendingPipeline.tables (pp : PendingPipeline) : PipelineTables where
  descriptorSetLayout := pp.descriptorSetLayout.map VkLayout.bindings
  pipelineLayout := pp.pipelineLayout.map VkLayout.bindings
  spvBindings := pp.spvBindings
  vtxInputs := pp.vtxInputs
  vtxStride := pp.vtxStride
  vtxAttrs := pp.vtxAttrs

/-- The tables of a shader pair; without descriptors it has no layout of its own. -/
def tablesOf (texcomp : Bool) (v f : Spv) : PipelineTables where
  descriptorSetLayout := if layoutBindings v f = [] then none else some (layoutBindings v f)
  pipelineLayout := if layoutBindings v f = [] then none else some (layoutBindings v f)
  spvBindings := if layoutBindings v f = [] then [] else boundBindings texcomp v f
  vtxInputs := vtxInputsOf v
  vtxStride := vtxStrideOf v
  vtxAttrs := vtxAttrsOf v

/-- The tables describe the pair stored, and are empty for the substitute pair. -/
def PendingPipeline.Describes (texcomp : Bool) (pp : PendingPipeline) : Prop :=
  match pp.vertexShader, pp.fragmentShader with
  | some (.created _ v), some (.created _ f) => pp.translated = true ∧ pp.tables = tablesOf texcomp v f
  | some .bundled, some .bundled => pp.translated = false ∧ pp.tables = {}
  | _, _ => False

def PendingPipeline.Coherent (texcomp : Bool) (reference : Nat) (pp : PendingPipeline) : Prop :=
  pp.valid = false ∨ pp.reference = reference ∧ pp.Describes texcomp

/-- After a SetRenderPipelineState the pending pipeline is the one it names. -/
def PipelineWorld.SetCoherent (w : PipelineWorld) : PipelineEvent → Prop
  | .setPipeline slot reference o =>
    ∀ pp, w.tasks[slot]? = some ⟨true, pp⟩ →
      (setRenderPipelineState w.texcomp w.loaded w.handles reference o pp).2.Coherent w.texcomp
        reference
  | _ => True

/-- The pair a SetRenderPipelineState commits, if it does. -/
def SetOutcome.committed (o : SetOutcome) : Option (Spv × Spv) :=
  if o.enabled = false then none
  else
    match o.vertex, o.fragment with
    | some v, some f => if o.hasResources v f ∧ ¬ o.drawable v f then none else some (v, f)
    | _, _ => none

/-- No path that forgets an object or keeps a table of the pipeline before is taken. -/
def PipelineCond (w : PipelineWorld) : PipelineEvent → Prop
  | .setPipeline slot reference o =>
    ∀ pp, w.tasks[slot]? = some ⟨true, pp⟩ →
      match o.committed with
      | some (v, f) => o.layoutOk v f
      | none => if w.loaded = true then pp.tables = {} else pp.valid = false ∨ pp.reference = reference
  | .deleteTask slot => ∀ pp, w.tasks[slot]? = some ⟨true, pp⟩ → pp.owned = 0
  | _ => True

/- How each part moves the account. -/

theorem Handles.Account.create {h : Handles} {m : Multiset Nat} (ha : h.Account m) :
    h.create.Account (m+{h.next}) := by
  rw [Handles.Account] at ha ⊢
  simp only [Handles.create]
  rw [Multiset.range_succ, ← Multiset.singleton_add, ← ha]
  abel

theorem Handles.Account.destroy {h : Handles} {m : Multiset Nat} {o : Option Nat}
    (ha : h.Account (m+held o)) : (h.destroy o).Account m := by
  rw [Handles.Account] at ha ⊢
  simp only [Handles.destroy]
  rw [← ha]
  abel

theorem Handles.Account.cancel {h : Handles} {m m' : Multiset Nat} (ha : h.Account (m+m')) :
    h.Account m ↔ m' = 0 := by
  rw [Handles.Account] at ha ⊢
  rw [← ha, ← add_assoc]
  constructor
  · intro h
    simpa using h
  · intro h
    rw [h, add_zero]

theorem dropCache_account {h : Handles} {pp : PendingPipeline} {m : Multiset Nat}
    (ha : h.Account (m+held pp.cachedPipeline)) : (dropCache h pp).1.Account m := by
  cases hc : pp.cachedPipeline with
  | none => simpa [dropCache, hc] using ha
  | some c =>
    simp only [dropCache, hc]
    rw [hc] at ha
    exact ha.destroy

@[simp] theorem dropCache_cached (h : Handles) (pp : PendingPipeline) :
    (dropCache h pp).2.cachedPipeline = none := by
  cases hc : pp.cachedPipeline <;> simp [dropCache, hc]

/-- Dropping the cache changes nothing else of what is stored. -/
theorem dropCache_snd (h : Handles) (pp : PendingPipeline) :
    ∃ color depth, (dropCache h pp).2 = { pp with
      cachedPipeline := none, cachedColorFmt := color, cachedDepthFmt := depth } := by
  cases hc : pp.cachedPipeline with
  | none =>
    refine ⟨pp.cachedColorFmt, pp.cachedDepthFmt, ?_⟩
    cases pp
    simp only at hc
    simp [dropCache, hc]
  | some c => exact ⟨0, 0, by simp [dropCache, hc]⟩

@[simp] theorem dropCache_pipelineLayout (h : Handles) (pp : PendingPipeline) :
    (dropCache h pp).2.pipelineLayout = pp.pipelineLayout := by
  obtain ⟨color, depth, hsnd⟩ := dropCache_snd h pp
  rw [hsnd]

@[simp] theorem dropCache_descriptorSetLayout (h : Handles) (pp : PendingPipeline) :
    (dropCache h pp).2.descriptorSetLayout = pp.descriptorSetLayout := by
  obtain ⟨color, depth, hsnd⟩ := dropCache_snd h pp
  rw [hsnd]

theorem getCachedPipeline_account {h : Handles} {pp : PendingPipeline} {m : Multiset Nat}
    (ha : h.Account (m+pp.owned)) (colorFmt depthFmt : Nat) (built : Bool) :
    (getCachedPipeline h pp colorFmt depthFmt built).1.Account
      (m+(getCachedPipeline h pp colorFmt depthFmt built).2.owned) := by
  rw [getCachedPipeline]
  by_cases hhit : pp.cachedPipeline.isSome ∧ pp.cachedColorFmt = colorFmt ∧
      pp.cachedDepthFmt = depthFmt
  · rw [if_pos hhit]
    exact ha
  rw [if_neg hhit]
  obtain ⟨color, depth, hsnd⟩ := dropCache_snd h pp
  have hdrop : (dropCache h pp).1.Account (m+(dropCache h pp).2.owned) := by
    apply dropCache_account
    rw [hsnd]
    rw [PendingPipeline.owned] at ha ⊢
    simpa [add_assoc] using ha
  cases built with
  | false => exact hdrop
  | true =>
    have hnew := hdrop.create
    simp only [ite_true, hsnd, PendingPipeline.owned, held_some, held_none, add_zero] at hnew ⊢
    simpa [add_assoc] using hnew

theorem getCachedPipeline_tables (h : Handles) (pp : PendingPipeline) (colorFmt depthFmt : Nat)
    (built : Bool) : ∃ cache color depth, (getCachedPipeline h pp colorFmt depthFmt built).2 =
      { pp with cachedPipeline := cache, cachedColorFmt := color, cachedDepthFmt := depth } := by
  rw [getCachedPipeline]
  obtain ⟨color, depth, hsnd⟩ := dropCache_snd h pp
  split_ifs with hhit hb
  · exact ⟨pp.cachedPipeline, pp.cachedColorFmt, pp.cachedDepthFmt, rfl⟩
  · exact ⟨some (dropCache h pp).1.next, colorFmt, depthFmt, by simp [hsnd]⟩
  · exact ⟨none, color, depth, hsnd⟩

def Translation.owned (c : Translation) : Multiset Nat :=
  held c.vertex.handle?+held c.fragment.handle?+held (c.layouts.map fun l => l.1.handle)+
    held (c.layouts.map fun l => l.2.handle)

theorem buildPipelineLayout_account {h : Handles} {m : Multiset Nat} (ha : h.Account m)
    (o : SetOutcome) (v f : Spv) : (buildPipelineLayout h o v f).1.Account
      (m+held ((buildPipelineLayout h o v f).2.map fun l => l.1.handle)+
        held ((buildPipelineLayout h o v f).2.map fun l => l.2.handle)) := by
  rw [buildPipelineLayout]
  split_ifs with h0 h1 h2
  · simpa using ha
  · simpa using ha
  · simpa using ha.create.destroy
  · simpa [Handles.create] using ha.create.create

theorem translatePair_account {h : Handles} {m : Multiset Nat} (ha : h.Account m) (o : SetOutcome)
    (v f : Spv) : (translatePair h o v f).1.Account
      (m+((translatePair h o v f).2.elim 0 Translation.owned)) := by
  have hl := buildPipelineLayout_account ha.create.create o v f
  rw [translatePair]
  split_ifs with h0 h1
  · simp only [Option.elim_none, add_zero]
    apply Handles.Account.destroy
    apply Handles.Account.destroy
    apply Handles.Account.destroy
    apply Handles.Account.destroy
    simp only [ShaderModule.handle?, held_some]
    convert hl using 1
    simp only [Handles.create]
    abel
  · simp only [Option.elim_some, Translation.owned, ShaderModule.handle?, held_some]
    convert hl using 1
    simp only [Handles.create]
    abel
  · simp only [Option.elim_some, Translation.owned, ShaderModule.handle?, held_some, Option.map_none,
      held_none, add_zero]
    apply Handles.Account.destroy
    apply Handles.Account.destroy
    convert hl using 1
    simp only [Handles.create]
    abel

theorem translate_account {h : Handles} {m : Multiset Nat} (ha : h.Account m) (o : SetOutcome) :
    (translate h o).1.Account (m+((translate h o).2.elim 0 Translation.owned)) := by
  rw [translate]
  split_ifs with h0
  · simpa using ha
  cases hv : o.vertex with
  | none => simpa using ha
  | some v =>
    cases hf : o.fragment with
    | none => simpa using ha.create.destroy
    | some f => exact translatePair_account ha o v f

/- What the run keeps of a pending pipeline: it is untouched, or describes its pair. -/
def PendingPipeline.Kept (texcomp : Bool) (pp : PendingPipeline) : Prop :=
  pp = {} ∨ pp.valid = true ∧ pp.Describes texcomp

theorem PendingPipeline.Kept.untranslated {texcomp : Bool} {pp : PendingPipeline}
    (hk : pp.Kept texcomp) (ht : pp.translated = false) :
    (shaderHandle pp.vertexShader = none ∧ shaderHandle pp.fragmentShader = none) ∧
      pp.pipelineLayout = none ∧ pp.descriptorSetLayout = none := by
  obtain rfl | ⟨-, hd⟩ := hk
  · exact ⟨⟨rfl, rfl⟩, rfl, rfl⟩
  rw [PendingPipeline.Describes] at hd
  split at hd
  · simp [ht] at hd
  · next hv hf =>
    have hdsl := congrArg PipelineTables.descriptorSetLayout hd.2
    have hpl := congrArg PipelineTables.pipelineLayout hd.2
    simp only [PendingPipeline.tables, Option.map_eq_none_iff] at hdsl hpl
    exact ⟨⟨by rw [hv]; rfl, by rw [hf]; rfl⟩, hpl, hdsl⟩
  · exact hd.elim

theorem PendingPipeline.Kept.owned {texcomp : Bool} {pp : PendingPipeline} (hk : pp.Kept texcomp)
    (ht : pp.translated = false) : pp.owned = held pp.cachedPipeline := by
  obtain ⟨⟨hv, hf⟩, hpl, hdsl⟩ := hk.untranslated ht
  simp [PendingPipeline.owned, hv, hf, hpl, hdsl, layoutHandle]

theorem destroyTranslated_account {texcomp : Bool} {h : Handles} {pp : PendingPipeline}
    {m : Multiset Nat} (hk : pp.Kept texcomp) (ha : h.Account (m+pp.owned)) :
    (destroyTranslated h pp).Account (m+held pp.cachedPipeline) := by
  rw [destroyTranslated]
  cases ht : pp.translated with
  | false =>
    rw [hk.owned ht] at ha
    simpa using ha
  | true =>
    simp only [ite_true]
    apply Handles.Account.destroy
    apply Handles.Account.destroy
    apply Handles.Account.destroy
    apply Handles.Account.destroy
    convert ha using 1
    rw [PendingPipeline.owned]
    abel

theorem commitTranslated_account {texcomp : Bool} {h : Handles} {pp : PendingPipeline}
    {c : Translation} {m : Multiset Nat} (hk : pp.Kept texcomp)
    (ha : h.Account (m+pp.owned+c.owned)) (reference : Nat) :
    (commitTranslated texcomp h reference pp c).1.Account
      (m+(commitTranslated texcomp h reference pp c).2.owned) := by
  have hd := dropCache_account (destroyTranslated_account hk
    (show h.Account (m+c.owned+pp.owned) by convert ha using 1; abel))
  have hown : (commitTranslated texcomp h reference pp c).2.owned = c.owned := by
    simp only [commitTranslated, PendingPipeline.owned, dropCache_cached, held_none, add_zero,
      Translation.owned, shaderHandle, layoutHandle, Option.bind_some, Option.map_map]
    rw [add_right_comm (held c.vertex.handle?+held c.fragment.handle?)]
    rfl
  rw [hown]
  exact hd

/-- The substitute pair owns nothing, so the layouts left in place stay accounted for. -/
theorem commitSubstitute_account {texcomp : Bool} {h : Handles} {pp : PendingPipeline}
    {m : Multiset Nat} (hk : pp.Kept texcomp) (ha : h.Account (m+pp.owned)) (reference : Nat) :
    (commitSubstitute h reference pp).1.Account
      (m+(commitSubstitute h reference pp).2.owned) := by
  have hown : (commitSubstitute h reference pp).2.owned =
      held (layoutHandle pp.pipelineLayout)+held (layoutHandle pp.descriptorSetLayout) := by
    simp [commitSubstitute, PendingPipeline.owned, shaderHandle, ShaderModule.handle?]
  rw [hown]
  simp only [commitSubstitute]
  apply dropCache_account
  cases ht : pp.translated with
  | false =>
    obtain ⟨-, hpl, hdsl⟩ := hk.untranslated ht
    rw [hk.owned ht] at ha
    simpa [hpl, hdsl, layoutHandle] using ha
  | true =>
    simp only [ite_true]
    apply Handles.Account.destroy
    apply Handles.Account.destroy
    convert ha using 1
    rw [PendingPipeline.owned]
    abel

theorem setRenderPipelineState_account {texcomp loaded : Bool} {h : Handles} {pp : PendingPipeline}
    {m : Multiset Nat} (hk : pp.Kept texcomp) (ha : h.Account (m+pp.owned)) (reference : Nat)
    (o : SetOutcome) : (setRenderPipelineState texcomp loaded h reference o pp).1.Account
      (m+(setRenderPipelineState texcomp loaded h reference o pp).2.owned) := by
  have ht := translate_account ha o
  rw [setRenderPipelineState]
  rcases htr : translate h o with ⟨h', _ | c⟩
  · rw [htr] at ht
    simp only [Option.elim_none, add_zero] at ht
    cases loaded with
    | false => exact ht
    | true => exact commitSubstitute_account hk ht reference
  · rw [htr] at ht
    exact commitTranslated_account hk ht reference

theorem translate_none {h : Handles} {o : SetOutcome} (hc : o.committed = none) :
    (translate h o).2 = none := by
  rw [SetOutcome.committed] at hc
  rw [translate]
  split_ifs at hc ⊢ with h0
  · rfl
  cases hv : o.vertex with
  | none => rfl
  | some v =>
    cases hf : o.fragment with
    | none => rfl
    | some f =>
      simp only [hv, hf] at hc
      split_ifs at hc with hsub
      simp only [translatePair]
      rw [if_pos hsub]

/-- A committed pair has its layouts exactly when it is drawable. -/
theorem translate_some {h : Handles} {o : SetOutcome} {v f : Spv}
    (hc : o.committed = some (v, f)) : ∃ i j layouts,
      (translate h o).2 = some ⟨.created i v, .created j f, v, f, layouts⟩ ∧
      (o.layoutOk v f → layouts.map (fun l => (l.1.bindings, l.2.bindings)) =
        if layoutBindings v f = [] then none else some (layoutBindings v f, layoutBindings v f)) ∧
      (¬ o.layoutOk v f → layouts = none ∧ layoutBindings v f ≠ []) := by
  rw [SetOutcome.committed] at hc
  by_cases h0 : o.enabled = false
  · simp [h0] at hc
  rw [if_neg h0] at hc
  rw [translate, if_neg h0]
  cases hv : o.vertex with
  | none => simp [hv] at hc
  | some v' =>
    cases hf : o.fragment with
    | none => simp [hv, hf] at hc
    | some f' =>
      simp only [hv, hf] at hc
      by_cases hsub : o.hasResources v' f' ∧ ¬ o.drawable v' f'
      · simp [hsub] at hc
      rw [if_neg hsub] at hc
      obtain ⟨rfl, rfl⟩ := Prod.mk.inj (Option.some.inj hc)
      simp only [translatePair]
      rw [if_neg hsub]
      by_cases hd : o.drawable v' f'
      · obtain ⟨hok, hne⟩ := hd.1
        obtain hnil | ⟨h1, h2⟩ := hok
        · exact absurd hnil hne
        rw [if_pos hd]
        refine ⟨_, _, _, rfl, fun _ => ?_, fun hno => absurd (Or.inr ⟨h1, h2⟩) hno⟩
        simp [buildPipelineLayout, hne, h1, h2]
      · have hnres : ¬ o.hasResources v' f' := fun hres => hsub ⟨hres, hd⟩
        rw [if_neg hd]
        refine ⟨_, _, _, rfl, fun hok => ?_, fun hno => ⟨rfl, fun hnil => hno (Or.inl hnil)⟩⟩
        have hnil : layoutBindings v' f' = [] := by
          by_contra hne
          exact hnres ⟨hok, hne⟩
        simp [hnil]

theorem setRenderPipelineState_coherent_iff {texcomp loaded : Bool} {h : Handles}
    {pp : PendingPipeline} (hk : pp.Kept texcomp) (reference : Nat) (o : SetOutcome) :
    (setRenderPipelineState texcomp loaded h reference o pp).2.Coherent texcomp reference ↔
      match o.committed with
      | some (v, f) => o.layoutOk v f
      | none => if loaded = true then pp.tables = {} else pp.valid = false ∨ pp.reference = reference := by
  rw [setRenderPipelineState]
  cases hc : o.committed with
  | none =>
    have hnone := translate_none (h := h) hc
    rcases htr : translate h o with ⟨h', c⟩
    rw [htr] at hnone
    obtain rfl : c = none := hnone
    cases loaded with
    | true =>
      obtain ⟨color, depth, hsnd⟩ := dropCache_snd (if pp.translated = true then
        (h'.destroy (shaderHandle pp.vertexShader)).destroy (shaderHandle pp.fragmentShader)
        else h') pp
      simp [commitSubstitute, PendingPipeline.Coherent, PendingPipeline.Describes,
        PendingPipeline.tables, hsnd]
    | false =>
      obtain rfl | ⟨hv, hd⟩ := hk
      · simp [PendingPipeline.Coherent]
      · simp [PendingPipeline.Coherent, hv, hd]
  | some vf =>
    obtain ⟨v, f⟩ := vf
    obtain ⟨i, j, layouts, hsome, hgood, hbad⟩ := translate_some (h := h) hc
    rcases htr : translate h o with ⟨h', c⟩
    rw [htr] at hsome
    obtain rfl : c = _ := hsome
    simp only [commitTranslated, PendingPipeline.Coherent, PendingPipeline.Describes]
    by_cases hok : o.layoutOk v f
    · have hgood := hgood hok
      simp only [hok, iff_true]
      refine Or.inr ⟨trivial, trivial, ?_⟩
      by_cases hnil : layoutBindings v f = []
      · simp only [hnil, if_true, Option.map_eq_none_iff] at hgood
        simp [PendingPipeline.tables, tablesOf, hgood, hnil]
      · simp only [hnil, if_false, Option.map_eq_some_iff, Prod.mk.injEq] at hgood
        obtain ⟨l, rfl, hdsl, hpl⟩ := hgood
        simp [PendingPipeline.tables, tablesOf, hnil, hdsl, hpl]
    · obtain ⟨rfl, hne⟩ := hbad hok
      simp [hok, PendingPipeline.tables, tablesOf, hne]

theorem setRenderPipelineState_kept {texcomp loaded : Bool} {h : Handles} {pp : PendingPipeline}
    {reference : Nat} {o : SetOutcome} (hk : pp.Kept texcomp)
    (hc : (setRenderPipelineState texcomp loaded h reference o pp).2.Coherent texcomp reference) :
    (setRenderPipelineState texcomp loaded h reference o pp).2.Kept texcomp := by
  have hcases : (setRenderPipelineState texcomp loaded h reference o pp).2 = pp ∨
      (setRenderPipelineState texcomp loaded h reference o pp).2.valid = true := by
    rw [setRenderPipelineState]
    rcases translate h o with ⟨h', _ | c⟩
    · cases loaded with
      | false => exact Or.inl rfl
      | true => exact Or.inr rfl
    · exact Or.inr rfl
  obtain hsame | hvalid := hcases
  · rw [hsame]
    exact hk
  · obtain hno | ⟨-, hd⟩ := hc
    · rw [hvalid] at hno
      cases hno
    · exact Or.inr ⟨hvalid, hd⟩

/-- A draw leaves the pair and its tables alone. -/
theorem getCachedPipeline_kept {texcomp : Bool} {h : Handles} {pp : PendingPipeline}
    (hv : pp.valid = true) (hk : pp.Kept texcomp) (colorFmt depthFmt : Nat) (built : Bool) :
    (getCachedPipeline h pp colorFmt depthFmt built).2.Kept texcomp := by
  obtain ⟨cache, color, depth, heq⟩ := getCachedPipeline_tables h pp colorFmt depthFmt built
  obtain rfl | ⟨-, hd⟩ := hk
  · cases hv
  · rw [heq]
    exact Or.inr ⟨hv, hd⟩

/-- The account is balanced, and every live task keeps its pending pipeline. -/
def PipelineWorld.Inv (w : PipelineWorld) : Prop :=
  w.Owned ∧ ∀ t ∈ w.tasks, t.live = true → t.pending.Kept w.texcomp

theorem kept_set {texcomp : Bool} {tasks : List PipelineTask} {slot : Nat} {t : PipelineTask}
    (h : ∀ t ∈ tasks, t.live = true → t.pending.Kept texcomp)
    (ht : t.live = true → t.pending.Kept texcomp) :
    ∀ t' ∈ tasks.set slot t, t'.live = true → t'.pending.Kept texcomp := by
  intro t' hmem
  obtain hmem | rfl := List.mem_or_eq_of_mem_set hmem
  · exact h t' hmem
  · exact ht

theorem PipelineWorld.Inv.store {w : PipelineWorld} (hw : w.Inv) {slot : Nat} {pp : PendingPipeline}
    (hs : w.tasks[slot]? = some ⟨true, pp⟩) {r : Handles × PendingPipeline}
    (ha : ∀ m, w.handles.Account (m+pp.owned) → r.1.Account (m+r.2.owned)) :
    (w.store slot r).Owned := by
  obtain ⟨m, hsum, hset⟩ := sum_map_split PipelineTask.owned hs
  have hown := hw.1
  rw [PipelineWorld.Owned, hsum] at hown
  rw [PipelineWorld.Owned, PipelineWorld.store, hset]
  exact ha m hown

/-- The claim for one step. -/
def PipelineSound (w : PipelineWorld) (e : PipelineEvent) : Prop :=
  (pipelineStep w e).Owned ∧ w.SetCoherent e

theorem pipelineSound_iff (w : PipelineWorld) (e : PipelineEvent) (hw : w.Inv) :
    PipelineSound w e ↔ PipelineCond w e := by
  cases e with
  | define slot =>
    refine ⟨fun _ => trivial, fun _ => ⟨?_, trivial⟩⟩
    rw [pipelineStep]
    split
    · next pp hs =>
      obtain ⟨m, hsum, hset⟩ := sum_map_split PipelineTask.owned hs
      have hown := hw.1
      rw [PipelineWorld.Owned, hsum] at hown
      rw [PipelineWorld.Owned, hset]
      exact hown
    · exact hw.1
  | setPipeline slot reference o =>
    have hiff : w.SetCoherent (.setPipeline slot reference o) ↔
        PipelineCond w (.setPipeline slot reference o) := by
      refine forall_congr' fun pp => forall_congr' fun hs => ?_
      have hk := hw.2 _ (List.mem_of_getElem? hs) rfl
      exact setRenderPipelineState_coherent_iff hk reference o
    refine ⟨fun h => hiff.mp h.2, fun h => ⟨?_, hiff.mpr h⟩⟩
    rw [pipelineStep]
    split
    · next pp hs =>
      have hk := hw.2 _ (List.mem_of_getElem? hs) rfl
      exact hw.store hs fun m ha => setRenderPipelineState_account hk ha reference o
    · exact hw.1
  | draw slot colorFmt depthFmt reached built =>
    refine ⟨fun _ => trivial, fun _ => ⟨?_, trivial⟩⟩
    rw [pipelineStep]
    split
    · next pp hs =>
      split_ifs with hgo
      · exact hw.store hs fun m ha => getCachedPipeline_account ha colorFmt depthFmt built
      · exact hw.1
    · exact hw.1
  | deleteTask slot =>
    cases hs : w.tasks[slot]? with
    | none => simp [PipelineSound, PipelineCond, pipelineStep, hs, hw.1, PipelineWorld.SetCoherent]
    | some t =>
      obtain ⟨live, pp⟩ := t
      cases live with
      | false =>
        simp [PipelineSound, PipelineCond, pipelineStep, hs, hw.1, PipelineWorld.SetCoherent]
      | true =>
        obtain ⟨m, hsum, hset⟩ := sum_map_split PipelineTask.owned hs
        have hown := hw.1
        rw [PipelineWorld.Owned, hsum] at hown
        have hcancel := hown.cancel
        simp only [PipelineSound, PipelineCond, pipelineStep, hs, PipelineWorld.SetCoherent, and_true,
          PipelineWorld.Owned, hset, Option.some.injEq, PipelineTask.mk.injEq, true_and,
          forall_eq']
        have hempty : PipelineTask.owned ⟨false, {}⟩ = 0 := rfl
        rw [hempty, add_zero]
        exact hcancel

theorem pipelineStep_inv (w : PipelineWorld) (e : PipelineEvent) (hw : w.Inv)
    (h : PipelineSound w e) : (pipelineStep w e).Inv := by
  refine ⟨h.1, ?_⟩
  cases e with
  | define slot =>
    rw [pipelineStep]
    split
    · exact kept_set hw.2 fun _ => Or.inl rfl
    · exact hw.2
  | setPipeline slot reference o =>
    rw [pipelineStep]
    split
    · next pp hs =>
      have hk := hw.2 _ (List.mem_of_getElem? hs) rfl
      exact kept_set hw.2 fun _ => setRenderPipelineState_kept hk (h.2 pp hs)
    · exact hw.2
  | draw slot colorFmt depthFmt reached built =>
    rw [pipelineStep]
    split
    · next pp hs =>
      split_ifs with hgo
      · have hk := hw.2 _ (List.mem_of_getElem? hs) rfl
        exact kept_set hw.2 fun _ => getCachedPipeline_kept hgo.1 hk colorFmt depthFmt built
      · exact hw.2
    · exact hw.2
  | deleteTask slot =>
    rw [pipelineStep]
    split
    · exact kept_set hw.2 fun hlive => by cases hlive
    · exact hw.2

theorem pipelineStart_inv (texcomp loaded : Bool) (live : List Bool) :
    (pipelineStart texcomp loaded live).Inv := by
  constructor
  · have hzero : ((pipelineStart texcomp loaded live).tasks.map PipelineTask.owned).sum = 0 := by
      apply List.sum_eq_zero
      intro m hm
      simp only [pipelineStart, List.map_map, List.mem_map, Function.comp_apply] at hm
      obtain ⟨b, -, rfl⟩ := hm
      cases b <;> rfl
    rw [PipelineWorld.Owned, hzero]
    rfl
  · intro t ht _
    simp only [pipelineStart, List.mem_map] at ht
    obtain ⟨b, -, rfl⟩ := ht
    exact Or.inl rfl

/-- Over whole runs: every object stays owned exactly once and every pending pipeline
coherent exactly when no step deletes a task that still stores an object, falls back over
tables that are not empty, names another pipeline with nothing to fall back to, or commits
a pair whose layouts could not be built. -/
theorem pipeline_objects_owned_iff (texcomp loaded : Bool) (live : List Bool)
    (es : List PipelineEvent) :
    AllSteps pipelineStep PipelineSound (pipelineStart texcomp loaded live) es ↔
      AllSteps pipelineStep PipelineCond (pipelineStart texcomp loaded live) es :=
  allSteps_iff pipelineStep pipelineSound_iff pipelineStep_inv es _
    (pipelineStart_inv texcomp loaded live)

/-- A vertex stage with one attribute and no resources, and one that reads a buffer. -/
def plainStage : Spv := ⟨[], false, [(0, 2)], [], 24, []⟩
def bufferStage : Spv := ⟨[⟨0, 0, .storageBuffer⟩], false, [(0, 2)], [1], 24, []⟩

def translatesTo (v : Spv) (layoutOk : Bool) : SetOutcome :=
  ⟨true, some v, some plainStage, layoutOk, true, true⟩

def fallsBack : SetOutcome := ⟨false, none, none, false, false, false⟩

/-- Deleting a task forgets its modules; the substitute keeps the attributes of the pair
before; without triangle modules the old reference stays; and a pair that reads a buffer
is committed without a layout when the layout could not be built. -/
theorem pipeline_objects_forgotten :
    ¬ AllSteps pipelineStep PipelineSound (pipelineStart true true [true])
        [.setPipeline 0 1 (translatesTo plainStage true), .deleteTask 0] ∧
    ¬ AllSteps pipelineStep PipelineSound (pipelineStart true true [true])
        [.setPipeline 0 1 (translatesTo plainStage true), .setPipeline 0 2 fallsBack] ∧
    ¬ AllSteps pipelineStep PipelineSound (pipelineStart true false [true])
        [.setPipeline 0 1 (translatesTo plainStage true), .setPipeline 0 2 fallsBack] ∧
    ¬ AllSteps pipelineStep PipelineSound (pipelineStart true true [true])
        [.setPipeline 0 1 (translatesTo bufferStage false)] := by
  refine ⟨?_, ?_, ?_, ?_⟩
  · rintro ⟨-, ⟨howned, -⟩, -⟩
    revert howned
    simp only [PipelineWorld.Owned, Handles.Account]
    decide
  · rintro ⟨-, ⟨-, hset⟩, -⟩
    obtain hv | ⟨-, hd⟩ := hset _ rfl
    · exact absurd hv (by decide)
    · exact absurd hd.2 (by decide)
  · rintro ⟨-, ⟨-, hset⟩, -⟩
    obtain hv | ⟨hr, -⟩ := hset _ rfl
    · exact absurd hv (by decide)
    · exact absurd hr (by decide)
  · rintro ⟨⟨-, hset⟩, -⟩
    obtain hv | ⟨-, hd⟩ := hset _ rfl
    · exact absurd hv (by decide)
    · exact absurd hd.2 (by decide)

end Lagfx
