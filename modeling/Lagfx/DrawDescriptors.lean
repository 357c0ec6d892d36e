import Lagfx.InnerOps

/-! Descriptor writes of a draw: for each reflected binding, the guest slot it is taken
from. Guest objects, surfaces and Vulkan answer through `DescriptorEnv`. -/
namespace Lagfx

inductive DrawStage where
  | vertex
  | fragment
deriving DecidableEq, Repr

/-- Fragment bindings start at FRAG_BINDING_BASE. -/
def DrawStage.base : DrawStage → Nat
  | .vertex => 0
  | .fragment => fragBindingBase

/-- Policies that are on unless disabled. -/
structure DescriptorPolicy where
  m1Texcomp : Bool := true
  m2Uitex : Bool := true
  m2Mtxscan : Bool := true
deriving DecidableEq, Repr

/- `view`: the ref has a sampleable surface, or one can be realized. `bufferData`: the
   slot's object resolves and its bytes can be read. `smallTexture` and `looksLikeMvp`
   are the two content probes. `fallbackTexture` is what the opt-in WHITEFB and UIRENDER
   find. -/
structure DescriptorEnv where
  stageIn : Bool := false
  smallTexture : Nat → Bool := fun _ => false
  view : Nat → Bool := fun _ => true
  bufferData : BindingSlot → Bool := fun _ => true
  looksLikeMvp : BindingSlot → Bool := fun _ => false
  fallbackTexture : Bool := false
  defaultSampler : Bool := true
  allocates : Bool := true
  makesBuffer : Nat → Bool := fun _ => true

/-- Where a descriptor's contents come from. -/
inductive DescriptorSource where
  | buffer (stage : DrawStage) (slot : Nat)
  | zeroBuffer
  | texture (slot : Nat)
  | fallbackTexture
  | sampler
deriving DecidableEq, Inhabited, Repr

structure DescriptorWrite where
  binding : Nat
  source : DescriptorSource
deriving DecidableEq, Repr

def DrawState.buffers (d : DrawState) : DrawStage → List BindingSlot
  | .vertex => d.vertexBuffers
  | .fragment => d.fragmentBuffers

def slotAt (slots : List BindingSlot) (i : Nat) : BindingSlot := slots.getD i {}

/-- Valid texture slots, with the small textures first under UITEX. -/
def validTexSlots (pol : DescriptorPolicy) (env : DescriptorEnv) (d : DrawState) : List Nat :=
  let valid := (List.range maxBindingSlots).filter fun s => (slotAt d.fragmentTextures s).valid
  let small := fun s => env.smallTexture (slotAt d.fragmentTextures s).ref
  if pol.m2Uitex then valid.filter small++valid.filter (fun s => !small s) else valid

/- The recorded Metal index where its slot is bound, else the next valid slot in order,
   or without TEXCOMP the slot of the binding's own number. -/
def textureIndex (pol : DescriptorPolicy) (env : DescriptorEnv) (d : DrawState)
    (b : BoundBinding) (texOrd : Nat) : Nat :=
  if 0 ≤ b.metal ∧ b.metal < maxBindingSlots ∧
      (slotAt d.fragmentTextures b.metal.toNat).valid = true then b.metal.toNat
  else if pol.m1Texcomp then (validTexSlots pol env d).getD texOrd maxBindingSlots
  else b.no

/-- A texture that cannot be had fails the whole set. -/
def textureSource (pol : DescriptorPolicy) (env : DescriptorEnv) (d : DrawState)
    (b : BoundBinding) (texOrd : Nat) : Option DescriptorSource :=
  let i := textureIndex pol env d b texOrd
  if i < maxBindingSlots ∧ (slotAt d.fragmentTextures i).valid = true ∧
      env.view (slotAt d.fragmentTextures i).ref = true then some (.texture i)
  else if env.fallbackTexture then some .fallbackTexture
  else none

/-- The stage whose buffer table a binding number stands for. -/
def bindingStage (pol : DescriptorPolicy) (no : Nat) : DrawStage :=
  if pol.m1Texcomp = true ∧ fragBindingBase ≤ no then .fragment else .vertex

/-- The recorded Metal index, where its slot is bound. -/
def authoritativeSlot (pol : DescriptorPolicy) (d : DrawState) (b : BoundBinding) :
    Option (DrawStage × Nat) :=
  let stage := bindingStage pol b.no
  let slot := slotAt (d.buffers stage) b.metal.toNat
  if 0 ≤ b.metal ∧ b.metal < maxBindingSlots ∧ slot.valid = true ∧ slot.ref ≠ 0 then
    some (stage, b.metal.toNat)
  else none

/- Vertex buffers by number, one further on when there are stage-in attributes; the scan
   for a matrix overrides binding 0. -/
def vertexHeuristic (pol : DescriptorPolicy) (env : DescriptorEnv) (d : DrawState) (no : Nat) :
    Option Nat :=
  let valid := fun s => (slotAt d.vertexBuffers s).valid
  let vslot := if env.stageIn then no+1 else no
  let guess :=
    if vslot < maxBindingSlots ∧ valid vslot = true then some vslot
    else if valid no = true then some no
    else none
  let scanned :=
    if pol.m2Mtxscan = true ∧ no = 0 ∧ env.stageIn = true then
      (List.range 8).find? fun s => valid s && env.looksLikeMvp (slotAt d.vertexBuffers s)
    else none
  scanned.or guess

/-- The slot of a storage buffer, and the count of fragment buffers placed by order. -/
def bufferSlot (pol : DescriptorPolicy) (env : DescriptorEnv) (d : DrawState)
    (b : BoundBinding) (fbufOrd : Nat) : Option (DrawStage × Nat) × Nat :=
  if maxBindingSlots ≤ b.no then (none, fbufOrd)
  else match authoritativeSlot pol d b with
    | some slot => (some slot, fbufOrd)
    | none =>
      if pol.m1Texcomp then
        if fragBindingBase ≤ b.no then
          (if fbufOrd < maxBindingSlots ∧ (slotAt d.fragmentBuffers fbufOrd).valid = true then
            some (.fragment, fbufOrd) else none, fbufOrd+1)
        else ((vertexHeuristic pol env d b.no).map fun s => (.vertex, s), fbufOrd)
      else if (slotAt d.vertexBuffers b.no).valid then (some (.vertex, b.no), fbufOrd)
      else if (slotAt d.fragmentBuffers b.no).valid then (some (.fragment, b.no), fbufOrd)
      else (none, fbufOrd)

/-- Without readable guest data the descriptor is a zero buffer. -/
def bufferSource (pol : DescriptorPolicy) (env : DescriptorEnv) (d : DrawState)
    (b : BoundBinding) (fbufOrd : Nat) : DescriptorSource :=
  match (bufferSlot pol env d b fbufOrd).1 with
  | none => .zeroBuffer
  | some (stage, s) =>
    let slot := slotAt (d.buffers stage) s
    if slot.ref ≠ 0 ∧ env.bufferData slot = true then .buffer stage s else .zeroBuffer

/- One binding: its source, nothing for a kind no descriptor is made of, or a failure of
   the whole set. -/
def bindOne (pol : DescriptorPolicy) (env : DescriptorEnv) (d : DrawState) (b : BoundBinding)
    (texOrd fbufOrd : Nat) : Option DescriptorSource :=
  match b.kind with
  | .sampledImage => textureSource pol env d b texOrd
  | .sampler => if env.defaultSampler then some .sampler else none
  | .storageBuffer =>
    if env.makesBuffer b.no then some (bufferSource pol env d b fbufOrd) else none
  | .unknown => none

/-- The loop over the bindings, with its two running ordinals. -/
def bindAll (pol : DescriptorPolicy) (env : DescriptorEnv) (d : DrawState) :
    List BoundBinding → Nat → Nat → Option (List DescriptorWrite)
  | [], _, _ => some []
  | b :: bs, texOrd, fbufOrd =>
    if b.kind = .unknown then bindAll pol env d bs texOrd fbufOrd
    else (bindOne pol env d b texOrd fbufOrd).bind fun source =>
      (bindAll pol env d bs (if b.kind = .sampledImage then texOrd+1 else texOrd)
        (if b.kind = .storageBuffer then (bufferSlot pol env d b fbufOrd).2 else fbufOrd)).map
        (⟨b.no, source⟩ :: ·)

/-- lagfx_build_draw_descriptor_set: the writes of the set it returns. -/
def buildDrawDescriptorSet (pol : DescriptorPolicy) (env : DescriptorEnv) (d : DrawState)
    (bindings : List BoundBinding) : Option (List DescriptorWrite) :=
  if env.allocates = false ∨ bindings = [] then none
  else (bindAll pol env d (bindings.take 32) 0 0).filter fun writes => writes ≠ []

variable {pol : DescriptorPolicy} {env : DescriptorEnv} {d : DrawState}

/-- The binding gets this source wherever it stands in the list. -/
structure Resolves (pol : DescriptorPolicy) (env : DescriptorEnv) (d : DrawState)
    (b : BoundBinding) (source : DescriptorSource) : Prop where
  known : b.kind ≠ .unknown
  bound : ∀ texOrd fbufOrd, bindOne pol env d b texOrd fbufOrd = some source

theorem bindAll_resolves {source : BoundBinding → DescriptorSource} (bs : List BoundBinding) :
    ∀ texOrd fbufOrd : Nat, (∀ b ∈ bs, Resolves pol env d b (source b)) →
      bindAll pol env d bs texOrd fbufOrd = some (bs.map fun b => ⟨b.no, source b⟩) := by
  induction bs with
  | nil => intro _ _ _; rfl
  | cons b bs ih =>
    intro texOrd fbufOrd h
    have hb := h b List.mem_cons_self
    rw [bindAll, if_neg hb.known, hb.bound]
    simp [ih _ _ fun c hc => h c (List.mem_cons_of_mem b hc)]

/-- When every binding resolves, each gets one write, from its source. -/
theorem build_resolves {source : BoundBinding → DescriptorSource} {bs : List BoundBinding}
    (ha : env.allocates = true) (hlen : bs.length ≤ 32) (hne : bs ≠ [])
    (h : ∀ b ∈ bs, Resolves pol env d b (source b)) :
    buildDrawDescriptorSet pol env d bs = some (bs.map fun b => ⟨b.no, source b⟩) := by
  rw [buildDrawDescriptorSet, if_neg (by simp [ha, hne]), List.take_of_length_le hlen,
    bindAll_resolves bs 0 0 h]
  simp [Option.filter, hne]

/-- Each write of a set comes from a binding, at the texture ordinal of its place. -/
theorem mem_bindAll (bs : List BoundBinding) :
    ∀ {texOrd fbufOrd : Nat} {writes : List DescriptorWrite},
      bindAll pol env d bs texOrd fbufOrd = some writes → ∀ w ∈ writes,
        ∃ pre b post, bs = pre++b :: post ∧ w.binding = b.no ∧
          ∃ u, bindOne pol env d b (texOrd+pre.countP (·.kind = .sampledImage)) u =
            some w.source := by
  induction bs with
  | nil =>
    intro texOrd fbufOrd writes h w hw
    obtain rfl : writes = [] := by simpa [bindAll] using h.symm
    simp at hw
  | cons b bs ih =>
    intro texOrd fbufOrd writes h w hw
    rw [bindAll] at h
    by_cases hk : b.kind = .unknown
    · rw [if_pos hk] at h
      obtain ⟨pre, c, post, rfl, hno, u, hone⟩ := ih h w hw
      refine ⟨b :: pre, c, post, rfl, hno, u, ?_⟩
      simpa [List.countP_cons, hk] using hone
    · rw [if_neg hk] at h
      obtain ⟨source, hone, hrest⟩ := Option.bind_eq_some_iff.mp h
      obtain ⟨rest, hall, rfl⟩ := Option.map_eq_some_iff.mp hrest
      rcases List.mem_cons.mp hw with rfl | hw
      · exact ⟨[], b, bs, rfl, rfl, fbufOrd, hone⟩
      · obtain ⟨pre, c, post, rfl, hno, u, hc⟩ := ih hall w hw
        refine ⟨b :: pre, c, post, rfl, hno, u, ?_⟩
        rw [List.countP_cons]
        by_cases hi : b.kind = .sampledImage
        · simpa [hi, Nat.add_assoc, Nat.add_comm 1] using hc
        · simpa [hi] using hc

theorem mem_build {bs : List BoundBinding} {writes : List DescriptorWrite}
    (h : buildDrawDescriptorSet pol env d bs = some writes) {w : DescriptorWrite}
    (hw : w ∈ writes) :
    ∃ pre b post, bs.take 32 = pre++b :: post ∧ w.binding = b.no ∧
      ∃ u, bindOne pol env d b (pre.countP (·.kind = .sampledImage)) u = some w.source := by
  rw [buildDrawDescriptorSet] at h
  split_ifs at h
  obtain ⟨hall, _⟩ := Option.filter_eq_some_iff.mp h
  simpa using mem_bindAll _ hall w hw

/-- A texture whose recorded index is bound and can be sampled is taken from there. -/
theorem resolves_texture {b : BoundBinding} {n : Nat} (hk : b.kind = .sampledImage)
    (hm : b.metal = n) (hn : n < maxBindingSlots)
    (hv : (slotAt d.fragmentTextures n).valid = true)
    (hs : env.view (slotAt d.fragmentTextures n).ref = true) :
    Resolves pol env d b (.texture n) := by
  refine ⟨by simp [hk], fun texOrd fbufOrd => ?_⟩
  have hi : textureIndex pol env d b texOrd = n := by
    simp [textureIndex, hm, hn, hv]
  simp [bindOne, hk, textureSource, hi, hn, hv, hs]

theorem textureIndex_of_source {b : BoundBinding} {texOrd n : Nat}
    (h : textureSource pol env d b texOrd = some (.texture n)) :
    textureIndex pol env d b texOrd = n := by
  simp only [textureSource] at h
  split_ifs at h
  · simpa using h
  · simp at h

theorem resolves_sampler {b : BoundBinding} (hk : b.kind = .sampler)
    (hs : env.defaultSampler = true) : Resolves pol env d b .sampler :=
  ⟨by simp [hk], fun _ _ => by simp [bindOne, hk, hs]⟩

/-- A buffer whose recorded index is bound in the table of its number is taken from there. -/
theorem resolves_buffer {b : BoundBinding} {n : Nat} (hk : b.kind = .storageBuffer)
    (hno : b.no < maxBindingSlots) (hm : b.metal = n) (hn : n < maxBindingSlots)
    (hv : (slotAt (d.buffers (bindingStage pol b.no)) n).valid = true)
    (hr : (slotAt (d.buffers (bindingStage pol b.no)) n).ref ≠ 0)
    (hd : env.bufferData (slotAt (d.buffers (bindingStage pol b.no)) n) = true)
    (hmake : env.makesBuffer b.no = true) :
    Resolves pol env d b (.buffer (bindingStage pol b.no) n) := by
  refine ⟨by simp [hk], fun texOrd fbufOrd => ?_⟩
  have ha : authoritativeSlot pol d b = some (bindingStage pol b.no, n) := by
    simp [authoritativeSlot, hm, hn, hv, hr]
  have hslot : bufferSlot pol env d b fbufOrd = (some (bindingStage pol b.no, n), fbufOrd) := by
    rw [bufferSlot, if_neg (by omega), ha]
  simp [bindOne, hk, hmake, bufferSource, hslot, hr, hd]

end Lagfx
