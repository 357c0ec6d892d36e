import Lagfx.Lib.Raster
import Lagfx.VertexSource

/-! Textures that are filled from a task's backing: realized once, refreshed at later binds. -/
namespace Lagfx
open ByteMemory Raster

/-- The formats of `lagfx_metal_pixel_format_to_vk`. -/
inductive VkFormat where
  | b8g8r8a8 | r8g8b8a8 | r16g16b16a16Sfloat | r8 | d32Sfloat | d16
deriving DecidableEq, Repr

def metalPixelFormatToVk : Nat → VkFormat
  | 80 => .b8g8r8a8
  | 70 => .r8g8b8a8
  | 115 => .r16g16b16a16Sfloat
  | 1 => .r8
  | 10 => .r8
  | 252 => .d32Sfloat
  | 25 => .d16
  | _ => .b8g8r8a8

/-- What `lagfx_vk_iosurface_upload_pixels` takes a texel of the format for. -/
def VkFormat.texelBytes : VkFormat → Nat
  | .r16g16b16a16Sfloat => 8
  | .d16 => 2
  | .r8 => 1
  | _ => 4

/-- An image and the texels it holds, row behind row. -/
structure SurfaceImage where
  width : Nat
  height : Nat
  format : VkFormat
  gpuDrawn : Bool := false
  pixels : List UInt8
  size : pixels.length = width*height*format.texelBytes

/-- The bytes of a texel. -/
def SurfaceImage.texel (im : SurfaceImage) (x y : Nat) : List UInt8 :=
  element im.pixels (im.width*im.format.texelBytes) im.format.texelBytes x y

/-- `lagfx_vk_iosurface_upload_pixels`: the data as the image's packed texels, zeros behind
it. -/
def uploadPixels (width height : Nat) (format : VkFormat) (data : List UInt8) : SurfaceImage where
  width := width
  height := height
  format := format
  pixels := fill 0 (width*height*format.texelBytes) data
  size := fill_length _ _ _

/- What is not decided by the code: whether the Vulkan calls of a creation and of an upload
   succeed, whether the registry takes a new entry, and what failed reads have left in the
   buffer behind the bytes that are filled. -/
structure TextureEnv where
  creates : Bool := true
  uploads : Bool := true
  registers : Bool := true
  leftover : Nat → UInt8 := fun _ => 0

/-- The fields of a texture's registry entry. -/
structure TextureEntry where
  size : Nat
  realizeSeen : Nat := 0
  backingDirty : Bool := false
  image : Option SurfaceImage := none

def textureDescBytes : Nat := 64
def textureMinBytes : Nat := 4096
def textureMaxBytes : Nat := 128*1024*1024
def refreshMaxBytes : Nat := 8*1024*1024
def textureMaxDim : Nat := 16384

/-- The kinds that are normal textures. -/
def textureKinds : List Nat := [0x03, 0x02, 0x0c]

/-- The descriptor that `lagfx_texture_realize` reads. -/
def textureDescriptor (s : State) (task : TaskEntry) (tref : Nat) : Option (List UInt8) :=
  match resolveObjectData s task tref with
  | none => none
  | some o =>
    if o.dataVa = 0 ∨ o.type ∉ textureKinds then none
    else taskReadVirtual s task o.dataVa textureDescBytes

/-- The sum of the placed sizes. -/
def textureTotal (desc : List UInt8) : Nat := u64 (placementSizes (placementRanges desc)).sum

/-- A read into a buffer of `want` bytes, none when nothing is read. -/
def readTexture (env : TextureEnv) (s : State) (task : TaskEntry) (tref want : Nat) :
    Option (List UInt8) :=
  let filled := readVtxSource s task tref 0 want 0
  if filled.length = 0 then none
  else some (filled++(List.range (want-filled.length)).map fun i =>
    env.leftover (filled.length+i))

/- Half-floats in the place of an alpha channel. -/

def alphaHalf (data : List UInt8) (k : Nat) : Nat := le16 data (8*k+6)

/-- Some alpha is finite and not zero. -/
def anyAlpha (data : List UInt8) : Bool :=
  (List.range (data.length/8)).any fun k =>
    decide (0 < alphaHalf data k%2^15 ∧ alphaHalf data k%2^15 < 0x7c00)

/-- Every alpha is 1.0. -/
def opaqueAlpha (data : List UInt8) : List UInt8 :=
  data.mapIdx fun i b =>
    if i/8 < data.length/8 ∧ i%8 = 6 then 0x00
    else if i/8 < data.length/8 ∧ i%8 = 7 then 0x3c
    else b

/-- The top byte of the format word. -/
def descBpp (desc : List UInt8) : Nat := le32 desc 32/2^24

def descStride (desc : List UInt8) : Nat := le32 desc 52
def descHeight (desc : List UInt8) : Nat := le32 desc 60

def textureAlpha (desc data : List UInt8) : List UInt8 :=
  if descBpp desc = 8 ∧ anyAlpha data = false then opaqueAlpha data else data

/-- Bytes per pixel, 4 when they make no sense. -/
def textureBpp (desc : List UInt8) : Nat :=
  if descBpp desc = 4 ∨ descBpp desc = 8 ∨ descBpp desc = 2 ∨ descBpp desc = 1 then descBpp desc
  else 4

def texelSize (desc : List UInt8) : Nat :=
  if textureBpp desc = 8 then 8 else if textureBpp desc = 1 then 1 else 4

/-- A stride and a height that make sense. -/
def DescPlausible (desc : List UInt8) : Prop :=
  4 ≤ descStride desc ∧ (descStride desc%4 = 0 ∨ textureBpp desc = 1) ∧ 0 < descHeight desc

instance (desc : List UInt8) : Decidable (DescPlausible desc) := inferInstanceAs (Decidable (_ ∧ _))

/-- The rows of the descriptor that the allocation has room for. -/
def effectiveHeight (desc : List UInt8) (want : Nat) : Nat :=
  min (descHeight desc) (want/descStride desc)

def describedWidth (desc : List UInt8) (want : Nat) : Nat :=
  if DescPlausible desc ∧ 0 < effectiveHeight desc want then descStride desc/texelSize desc else 0

def inferredWidths : List Nat := [64, 128, 32, 256, 16, 512, 1280, 1920, 1024, 2048]

/-- A width that divides the pixels, with an aspect from 0.4 to 2.5. -/
def widthFits (npx w : Nat) : Bool :=
  decide (npx%w = 0 ∧ npx/w ≠ 0 ∧ 2*(npx/w) ≤ 5*w ∧ 2*w ≤ 5*(npx/w))

/-- Width and height from the number of pixels. -/
def inferredDims (npx : Nat) : Nat × Nat :=
  match inferredWidths.find? (widthFits npx) with
  | some w => (w, npx/w)
  | none => (64, if npx/64 ≠ 0 then npx/64 else 1)

def textureDims (desc : List UInt8) (want : Nat) : Nat × Nat :=
  if describedWidth desc want ≠ 0 then (describedWidth desc want, effectiveHeight desc want)
  else inferredDims (want/4)

def DimsSane (d : Nat × Nat) : Prop :=
  d.1 ≠ 0 ∧ d.2 ≠ 0 ∧ d.1 ≤ textureMaxDim ∧ d.2 ≤ textureMaxDim

instance (d : Nat × Nat) : Decidable (DimsSane d) := inferInstanceAs (Decidable (_ ∧ _))

/-- RGBA16Float, R8Unorm or BGRA8. -/
def textureMtlFormat (desc : List UInt8) : Nat :=
  if textureBpp desc = 8 then 115 else if textureBpp desc = 1 then 10 else 80

/-- The image that is made of a buffer. -/
def textureImage (desc data : List UInt8) : SurfaceImage :=
  uploadPixels (textureDims desc data.length).1 (textureDims desc data.length).2
    (metalPixelFormatToVk (textureMtlFormat desc)) (textureAlpha desc data)

/-- `lagfx_texture_realize`, given the entry that is registered for the ref; the entry
afterwards, none when there is no image. -/
def textureRealize (env : TextureEnv) (s : State) (task : TaskEntry) (tref : Nat)
    (te : Option TextureEntry) : Option TextureEntry :=
  if tref = 0 then none
  else match textureDescriptor s task tref with
    | none => none
    | some desc =>
      if textureTotal desc < textureMinBytes ∨ textureMaxBytes < textureTotal desc then none
      else match readTexture env s task tref (textureTotal desc) with
        | none => none
        | some pick =>
          if ¬DimsSane (textureDims desc (textureTotal desc)) then none
          else if env.creates = false ∨ env.uploads = false then none
          else match te with
            | some te =>
              some { te with realizeSeen := 0
                             backingDirty := false
                             image := some (textureImage desc pick) }
            | none =>
              if env.registers then
                some { size := textureTotal desc, image := some (textureImage desc pick) }
              else none

/-- The bytes that a refresh reads. -/
def refreshTotal (te : TextureEntry) (im : SurfaceImage) : Option Nat :=
  if textureMinBytes ≤ te.size ∧ te.size ≤ refreshMaxBytes then some te.size
  else
    let total := u64 (im.width*im.height*4)
    if textureMinBytes ≤ total ∧ total ≤ refreshMaxBytes then some total else none

/-- Some whole word is not zero. -/
def anyNonzero (data : List UInt8) : Bool := (data.take (data.length/4*4)).any fun b => b != 0

/-- `lagfx_texture_refresh` on the ref's entry. -/
def textureRefresh (env : TextureEnv) (s : State) (task : TaskEntry) (tref : Nat)
    (te : TextureEntry) : TextureEntry :=
  match te.image with
  | none => te
  | some im =>
    if tref = 0 ∨ im.gpuDrawn = true ∧ te.backingDirty = false then te
    else
      let seen := { te with realizeSeen := (te.realizeSeen+1)%2^16 }
      if te.realizeSeen%8 ≠ 0 then seen
      else match refreshTotal te im with
        | none => seen
        | some want =>
          match readTexture env s task tref want with
          | none => seen
          | some data =>
            if anyNonzero data = true ∧ env.uploads = true then
              { seen with backingDirty := false
                          image := some (uploadPixels im.width im.height im.format data) }
            else seen

/-- A descriptor whose words make sense, of an image that is not too large. Its rows are whole
texels, or there is only one. -/
structure TextureFits (desc : List UInt8) : Prop where
  bpp : descBpp desc ∈ [1, 2, 4, 8]
  words : DescPlausible desc
  least : textureMinBytes ≤ textureTotal desc
  most : textureTotal desc ≤ textureMaxBytes
  texel : texelSize desc ≤ descStride desc
  row : descStride desc ≤ textureTotal desc
  whole : texelSize desc ∣ descStride desc ∨ effectiveHeight desc (textureTotal desc) = 1
  width : descStride desc/texelSize desc ≤ textureMaxDim
  height : effectiveHeight desc (textureTotal desc) ≤ textureMaxDim

/-- The image has the size of the descriptor, and each texel is where its words place it in
the data. -/
structure TexelsPlaced (desc data : List UInt8) (im : SurfaceImage) : Prop where
  width : im.width = descStride desc/texelSize desc
  height : im.height = effectiveHeight desc (textureTotal desc)
  texelBytes : im.format.texelBytes = texelSize desc
  within : im.width*im.height*texelSize desc ≤ textureTotal desc
  texel : ∀ x y, x < im.width → y < im.height →
    im.texel x y = element data (descStride desc) (texelSize desc) x y

def SurfaceImage.shape (im : SurfaceImage) : Nat × Nat × VkFormat :=
  (im.width, im.height, im.format)

/-- An entry later on: of the same size, with an image of the same shape. -/
def SameTexture (te te' : TextureEntry) : Prop :=
  te'.size = te.size ∧ te'.image.map SurfaceImage.shape = te.image.map SurfaceImage.shape

/-- Nothing holds a refresh back: what the GPU has drawn, or the rate limit. -/
def RefreshDue (te : TextureEntry) (im : SurfaceImage) : Prop :=
  ¬(im.gpuDrawn = true ∧ te.backingDirty = false) ∧ te.realizeSeen%8 = 0

/-- What a refresh that is due reads and uploads. -/
def RefreshUploads (env : TextureEnv) (s : State) (task : TaskEntry) (tref : Nat)
    (te : TextureEntry) (im : SurfaceImage) (data : List UInt8) : Prop :=
  ∃ want, refreshTotal te im = some want ∧ readTexture env s task tref want = some data ∧
    anyNonzero data = true ∧ env.uploads = true

/-- The texels after a refresh that is due: those of realize where it uploads, as long as what
it has read covers the image and needs no alpha. -/
structure RefreshPlaced (desc : List UInt8) (env : TextureEnv) (s : State) (task : TaskEntry)
    (tref : Nat) (te : TextureEntry) (im : SurfaceImage) : Prop where
  placed : ∀ data, RefreshUploads env s task tref te im data →
    im.width*im.height*texelSize desc ≤ data.length →
    (texelSize desc = 8 → anyAlpha data = true) →
    ∃ im', (textureRefresh env s task tref te).image = some im' ∧
      TexelsPlaced desc (textureAlpha desc data) im'
  same : ∀ data, RefreshUploads env s task tref te im data → data.length = textureTotal desc →
    (texelSize desc = 8 → anyAlpha data = true) →
    (textureRefresh env s task tref te).image = some (textureImage desc data)
  covers : ∀ data, RefreshUploads env s task tref te im data → te.size = textureTotal desc →
    (texelSize desc = 8 → textureTotal desc ≤ refreshMaxBytes) →
    im.width*im.height*texelSize desc ≤ data.length
  kept : (¬∃ data, RefreshUploads env s task tref te im data) →
    (textureRefresh env s task tref te).image = some im

theorem texelSize_pos (desc : List UInt8) : 0 < texelSize desc := by
  rw [texelSize]
  split_ifs <;> decide

theorem textureFormat_texelBytes (desc : List UInt8) :
    (metalPixelFormatToVk (textureMtlFormat desc)).texelBytes = texelSize desc := by
  rw [textureMtlFormat, texelSize]
  split_ifs <;> rfl

theorem texelSize_eq_eight {desc : List UInt8} (h : descBpp desc = 8) : texelSize desc = 8 := by
  have hbpp : textureBpp desc = 8 := by rw [textureBpp, if_pos (.inr (.inl h)), h]
  rw [texelSize, if_pos hbpp]

@[simp] theorem opaqueAlpha_length (data : List UInt8) : (opaqueAlpha data).length = data.length :=
  List.length_mapIdx

@[simp] theorem textureAlpha_length (desc data : List UInt8) :
    (textureAlpha desc data).length = data.length := by
  rw [textureAlpha]
  split_ifs
  · exact opaqueAlpha_length data
  · rfl

theorem texelSize_le_four {desc : List UInt8} (h : texelSize desc ≠ 8) : texelSize desc ≤ 4 := by
  rw [texelSize] at h ⊢
  split_ifs at h ⊢ <;> omega

/-- Texels that are not of half-floats stay, and so do those with an alpha. -/
theorem textureAlpha_of {desc data : List UInt8}
    (h : texelSize desc = 8 → anyAlpha data = true) : textureAlpha desc data = data := by
  have hnot : ¬(descBpp desc = 8 ∧ anyAlpha data = false) := by
    intro hfix
    exact Bool.false_ne_true (hfix.2.symm.trans (h (texelSize_eq_eight hfix.1)))
  rw [textureAlpha, if_neg hnot]

theorem readTexture_length {env : TextureEnv} {s : State} {task : TaskEntry} {tref want : Nat}
    {data : List UInt8} (h : readTexture env s task tref want = some data) :
    data.length = want := by
  have hle := readVtxSource_length s task tref 0 want 0
  simp only [readTexture] at h
  split_ifs at h
  obtain rfl := Option.some.inj h
  rw [List.length_append, List.length_map, List.length_range]
  omega

namespace TextureFits
variable {desc : List UInt8}

theorem effectiveHeight_pos (h : TextureFits desc) :
    0 < effectiveHeight desc (textureTotal desc) := by
  have hstride : 0 < descStride desc := Nat.lt_of_lt_of_le (by decide) h.words.1
  exact Nat.lt_min.2 ⟨h.words.2.2, Nat.div_pos h.row hstride⟩

theorem width_pos (h : TextureFits desc) : 0 < descStride desc/texelSize desc :=
  Nat.div_pos h.texel (texelSize_pos desc)

theorem dims (h : TextureFits desc) : textureDims desc (textureTotal desc) =
    (descStride desc/texelSize desc, effectiveHeight desc (textureTotal desc)) := by
  have hw : describedWidth desc (textureTotal desc) = descStride desc/texelSize desc := by
    rw [describedWidth, if_pos ⟨h.words, h.effectiveHeight_pos⟩]
  rw [textureDims, hw, if_pos (Nat.ne_of_gt h.width_pos)]

theorem sane (h : TextureFits desc) : DimsSane (textureDims desc (textureTotal desc)) := by
  rw [h.dims]
  exact ⟨Nat.ne_of_gt h.width_pos, Nat.ne_of_gt h.effectiveHeight_pos, h.width, h.height⟩

theorem total_ok (h : TextureFits desc) :
    ¬(textureTotal desc < textureMinBytes ∨ textureMaxBytes < textureTotal desc) := by
  have hleast := h.least
  have hmost := h.most
  omega

/-- Packed rows have the descriptor's stride. -/
theorem packed (h : TextureFits desc) :
    descStride desc/texelSize desc*texelSize desc = descStride desc ∨
    effectiveHeight desc (textureTotal desc) = 1 := by
  cases h.whole with
  | inl hdvd => exact .inl (Nat.div_mul_cancel hdvd)
  | inr hone => exact .inr hone

/-- An upload of enough data puts every texel in its place. -/
theorem upload_placed (h : TextureFits desc) {w ht : Nat} {format : VkFormat}
    {data : List UInt8} (hw : w = descStride desc/texelSize desc)
    (hht : ht = effectiveHeight desc (textureTotal desc))
    (hformat : format.texelBytes = texelSize desc) (hdata : w*ht*texelSize desc ≤ data.length) :
    TexelsPlaced desc data (uploadPixels w ht format data) where
  width := hw
  height := hht
  texelBytes := hformat
  within := by
    simp only [uploadPixels, hw, hht]
    exact raster_le _ _ _ _
  texel x y hx hy := by
    simp only [uploadPixels] at hx hy
    simp only [SurfaceImage.texel, uploadPixels, hformat]
    rw [element_fill hx hy hdata]
    have hpacked := h.packed
    rw [← hw, ← hht] at hpacked
    exact element_packed hy hpacked

/-- The image that realize makes of a buffer. -/
theorem image_placed (h : TextureFits desc) {data : List UInt8}
    (hlen : data.length = textureTotal desc) :
    TexelsPlaced desc (textureAlpha desc data) (textureImage desc data) := by
  rw [textureImage, hlen, h.dims]
  refine h.upload_placed rfl rfl (textureFormat_texelBytes desc) ?_
  rw [textureAlpha_length, hlen]
  exact raster_le _ _ _ _

end TextureFits

section
variable {env : TextureEnv} {s : State} {task : TaskEntry} {tref : Nat} {desc : List UInt8}

/-- An image is realized exactly when there are bytes and nothing fails behind them. -/
theorem textureRealize_isSome_iff (href : tref ≠ 0)
    (hdesc : textureDescriptor s task tref = some desc) (h : TextureFits desc)
    (te : Option TextureEntry) : (textureRealize env s task tref te).isSome = true ↔
    (readTexture env s task tref (textureTotal desc)).isSome = true ∧ env.creates = true ∧
    env.uploads = true ∧ (te.isSome = true ∨ env.registers = true) := by
  rw [textureRealize, if_neg href, hdesc]
  simp only
  rw [if_neg h.total_ok]
  cases readTexture env s task tref (textureTotal desc) with
  | none => simp
  | some pick =>
    simp only
    rw [if_neg (not_not_intro h.sane)]
    cases env.creates <;> cases env.uploads <;> cases te <;> cases env.registers <;> simp

theorem textureRealize_some (href : tref ≠ 0)
    (hdesc : textureDescriptor s task tref = some desc) (h : TextureFits desc)
    {te : Option TextureEntry} {te' : TextureEntry}
    (hr : textureRealize env s task tref te = some te') :
    ∃ pick, readTexture env s task tref (textureTotal desc) = some pick ∧
      te'.image = some (textureImage desc pick) ∧ te'.realizeSeen = 0 ∧
      (te = none → te'.size = textureTotal desc) := by
  rw [textureRealize, if_neg href, hdesc] at hr
  simp only at hr
  rw [if_neg h.total_ok] at hr
  cases hread : readTexture env s task tref (textureTotal desc) with
  | none => simp [hread] at hr
  | some pick =>
    simp only [hread] at hr
    rw [if_neg (not_not_intro h.sane)] at hr
    refine ⟨pick, rfl, ?_⟩
    cases te with
    | none =>
      simp only at hr
      split_ifs at hr
      obtain rfl := Option.some.inj hr
      exact ⟨rfl, rfl, fun _ => rfl⟩
    | some old =>
      simp only at hr
      split_ifs at hr
      obtain rfl := Option.some.inj hr
      exact ⟨rfl, rfl, fun hnone => by cases hnone⟩

variable {te : TextureEntry} {im : SurfaceImage}

theorem refresh_uploads (href : tref ≠ 0) (him : te.image = some im) (hdue : RefreshDue te im)
    {data : List UInt8} (hup : RefreshUploads env s task tref te im data) :
    (textureRefresh env s task tref te).image =
    some (uploadPixels im.width im.height im.format data) := by
  obtain ⟨want, htotal, hread, hup⟩ := hup
  have hheld : ¬(tref = 0 ∨ im.gpuDrawn = true ∧ te.backingDirty = false) :=
    not_or.2 ⟨href, hdue.1⟩
  rw [textureRefresh, him]
  simp only
  rw [if_neg hheld, if_neg (not_not_intro hdue.2), htotal]
  simp only [hread]
  rw [if_pos hup]

/-- What is not uploaded changes no texel. -/
theorem refresh_keeps (hup : ¬∃ data, RefreshUploads env s task tref te im data)
    (him : te.image = some im) : (textureRefresh env s task tref te).image = some im := by
  rw [textureRefresh, him]
  simp only
  split_ifs
  · exact him
  · rfl
  · cases htotal : refreshTotal te im with
    | none => rfl
    | some want =>
      simp only
      cases hread : readTexture env s task tref want with
      | none => rfl
      | some data =>
        simp only
        have hnot : ¬(anyNonzero data = true ∧ env.uploads = true) := by
          intro hdata
          exact hup ⟨data, want, htotal, hread, hdata⟩
        rw [if_neg hnot]

/-- A refresh of an entry that has the size of its backing reads the whole image, except
for large images of half-floats. -/
theorem refreshTotal_covers (h : TextureFits desc)
    (hwidth : im.width = descStride desc/texelSize desc)
    (hheight : im.height = effectiveHeight desc (textureTotal desc))
    (hsize : te.size = textureTotal desc)
    (hlarge : texelSize desc = 8 → textureTotal desc ≤ refreshMaxBytes) {want : Nat}
    (hwant : refreshTotal te im = some want) : im.width*im.height*texelSize desc ≤ want := by
  rw [refreshTotal, hsize] at hwant
  by_cases hin : textureMinBytes ≤ textureTotal desc ∧ textureTotal desc ≤ refreshMaxBytes
  · rw [if_pos hin] at hwant
    obtain rfl := Option.some.inj hwant
    rw [hwidth, hheight]
    exact raster_le _ _ _ _
  · rw [if_neg hin] at hwant
    simp only at hwant
    split_ifs at hwant
    obtain rfl := Option.some.inj hwant
    have hfour : texelSize desc ≤ 4 := by
      apply texelSize_le_four
      intro height
      exact hin ⟨h.least, hlarge height⟩
    have hw : im.width ≤ textureMaxDim := hwidth ▸ h.width
    have hh : im.height ≤ textureMaxDim := hheight ▸ h.height
    -- The product of two dimensions that are sane does not wrap.
    have harea : im.width*im.height ≤ textureMaxDim*textureMaxDim := Nat.mul_le_mul hw hh
    have hbytes : u64 (im.width*im.height*4) = im.width*im.height*4 := by
      rw [textureMaxDim] at harea
      apply Nat.mod_eq_of_lt
      omega
    rw [hbytes]
    exact Nat.mul_le_mul_left _ hfour

theorem refresh_placed (href : tref ≠ 0) (h : TextureFits desc) (him : te.image = some im)
    (hwidth : im.width = descStride desc/texelSize desc)
    (hheight : im.height = effectiveHeight desc (textureTotal desc))
    (hformat : im.format = metalPixelFormatToVk (textureMtlFormat desc))
    (hdue : RefreshDue te im) : RefreshPlaced desc env s task tref te im where
  placed data hup hdata halpha := by
    refine ⟨_, refresh_uploads href him hdue hup, ?_⟩
    rw [textureAlpha_of halpha]
    refine h.upload_placed hwidth hheight ?_ hdata
    rw [hformat, textureFormat_texelBytes]
  same data hup hlen halpha := by
    rw [refresh_uploads href him hdue hup, textureImage, hlen, h.dims, hwidth, hheight, hformat,
      textureAlpha_of halpha]
  covers data hup hsize hlarge := by
    obtain ⟨want, hwant, hread, -⟩ := hup
    rw [readTexture_length hread]
    exact refreshTotal_covers h hwidth hheight hsize hlarge hwant
  kept hup := refresh_keeps hup him

end

/-- An image whose words are sane is realized with its texels in their places, and a refresh
that is due puts the texels of what it reads there or changes nothing. -/
theorem texture_texels_placed {s : State} {task : TaskEntry} {tref : Nat} {desc : List UInt8}
    (href : tref ≠ 0) (hdesc : textureDescriptor s task tref = some desc)
    (h : TextureFits desc) (env : TextureEnv) (te : Option TextureEntry) :
    ((textureRealize env s task tref te).isSome = true ↔
      (readTexture env s task tref (textureTotal desc)).isSome = true ∧ env.creates = true ∧
      env.uploads = true ∧ (te.isSome = true ∨ env.registers = true)) ∧
    ∀ te₁, textureRealize env s task tref te = some te₁ →
      (te = none → te₁.size = textureTotal desc) ∧
      ∃ pick im, readTexture env s task tref (textureTotal desc) = some pick ∧
        te₁.image = some im ∧ im = textureImage desc pick ∧
        TexelsPlaced desc (textureAlpha desc pick) im ∧
        ∀ te₂ im₂, SameTexture te₁ te₂ → te₂.image = some im₂ → RefreshDue te₂ im₂ →
        ∀ env₂ s₂ task₂, RefreshPlaced desc env₂ s₂ task₂ tref te₂ im₂ := by
  refine ⟨textureRealize_isSome_iff href hdesc h te, fun te₁ hr => ?_⟩
  obtain ⟨pick, hread, him, -, hsize⟩ := textureRealize_some href hdesc h hr
  have hlen := readTexture_length hread
  refine ⟨hsize, pick, _, hread, him, rfl, h.image_placed hlen, ?_⟩
  intro te₂ im₂ hsame him₂ hdue env₂ s₂ task₂
  have hshape : im₂.shape = (textureImage desc pick).shape := by
    have hmap := hsame.2
    rw [him, him₂] at hmap
    exact Option.some.inj hmap
  simp only [SurfaceImage.shape, textureImage, uploadPixels, hlen, h.dims, Prod.mk.injEq]
    at hshape
  exact refresh_placed href h him₂ hshape.1 hshape.2.1 hshape.2.2 hdue

/- A guest whose first 4 MiB are mapped to themselves, with a texture object at slot 1. -/

/-- One range of this size, and the words for format, stride and height. -/
def textureDesc (size bpp stride height : Nat) : List UInt8 :=
  putLe 8 size++putLe 8 0x10++List.replicate 16 0++putLe 4 (bpp*2^24)++List.replicate 16 0++
    putLe 4 stride++List.replicate 4 0++putLe 4 height

def textureGuest (desc : List UInt8) : State :=
  let root := write (fun _ => 1) 0x1000 (putLe 4 3++putLe 4 2)
  let node := write root 0x3000 (putLe 4 (2^31))
  let slot := write node (0x4000+12) (putLe 4 0x03++putLe 8 0x5000)
  { mem := write slot 0x5000 desc }

def textureTask : TaskEntry := { rootPagePfn := 1, heapPfn := 4 }

/-- 16 by 4 texels of four bytes. -/
theorem small_texture_placed : ∃ te im,
    textureRealize {} (textureGuest (textureDesc 4096 4 64 4)) textureTask 1 none = some te ∧
    te.image = some im ∧ im.width = 16 ∧ im.height = 4 ∧ te.size = 4096 := by
  have hfits : TextureFits (textureDesc 4096 4 64 4) := by
    constructor <;> decide
  obtain ⟨hiff, hplaced⟩ := @texture_texels_placed (textureGuest (textureDesc 4096 4 64 4))
    textureTask 1 _ (by decide) (by decide) hfits {} none
  have hsome := hiff.2 ⟨by decide +kernel, rfl, rfl, .inr rfl⟩
  obtain ⟨te, hte⟩ := Option.isSome_iff_exists.1 hsome
  obtain ⟨hsize, pick, im, -, him, -, hin, -⟩ := hplaced te hte
  exact ⟨te, im, hte, him, hin.width.trans (by decide), hin.height.trans (by decide),
    (hsize rfl).trans (by decide)⟩

/-- One row of 20000 one-byte texels is wider than any image. -/
theorem wide_row_not_realized : DescPlausible (textureDesc 20480 1 20000 1) ∧
    descBpp (textureDesc 20480 1 20000 1) = 1 ∧
    textureTotal (textureDesc 20480 1 20000 1) = 20480 ∧
    textureDescriptor (textureGuest (textureDesc 20480 1 20000 1)) textureTask 1 =
      some (textureDesc 20480 1 20000 1) ∧
    ∀ env te, textureRealize env (textureGuest (textureDesc 20480 1 20000 1)) textureTask 1 te =
      none := by
  have hdesc : textureDescriptor (textureGuest (textureDesc 20480 1 20000 1)) textureTask 1 =
      some (textureDesc 20480 1 20000 1) := by decide
  have htotal : textureTotal (textureDesc 20480 1 20000 1) = 20480 := by decide
  have hdims : ¬DimsSane (textureDims (textureDesc 20480 1 20000 1)
      (textureTotal (textureDesc 20480 1 20000 1))) := by decide
  refine ⟨by decide, by decide, htotal, hdesc, fun env te => ?_⟩
  rw [textureRealize, if_neg (by decide), hdesc]
  simp only
  split_ifs
  · rfl
  · cases readTexture env (textureGuest (textureDesc 20480 1 20000 1)) textureTask 1
      (textureTotal (textureDesc 20480 1 20000 1)) with
    | none => rfl
    | some pick => rfl

end Lagfx
