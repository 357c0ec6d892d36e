import Lagfx.Lib.ImageLayout

/-! The layout fields of the IOSurfaces and of the display render target against the
layouts the submitted commands leave the images in, with every Vulkan call succeeding.
What a draw, a copy or a composite computes from the images is given. -/
namespace Lagfx.SurfaceLayout
open Runs ImageLayout

inductive ImageId where
  | display
  | surface (i : Nat)
deriving DecidableEq, Repr

abbrev ImageCmd (α : Type*) := Cmd ImageId α

/-- What a shader or a blit makes of the images it can see. -/
abbrev Paint (α : Type*) := (ImageId → Option α) → Option α

/- The environment: LAGFX_CLEAR_IOSURF with its colour, and the two scanout assembly
   policies. -/
structure LayoutPolicy (α : Type*) where
  clearIosurf : Option α := none
  asmblit : Bool := true
  overlay : Bool := true

/-- Host side: the layout fields, which surfaces are registered, the assembly queue. -/
structure LayoutHost where
  registered : Nat → Bool := fun _ => false
  layout : ImageId → Layout := fun _ => .undefined
  frameBlitQueue : List Nat := []

def LayoutHost.setLayout (h : LayoutHost) (id : ImageId) (l : Layout) : LayoutHost :=
  { h with layout := Function.update h.layout id l }

/-- A host operation and the submissions it makes. The host never reads an image. -/
abbrev HostOp (α : Type*) := LayoutHost → LayoutHost × List (List (ImageCmd α))

variable {α : Type*}

def skip : HostOp α := fun h => (h, [])

def andThen (a b : HostOp α) : HostOp α := fun h =>
  let (h1, s1) := a h
  let (h2, s2) := b h1
  (h2, s1++s2)

def inOrder (ops : List (HostOp α)) : HostOp α := ops.foldr andThen skip

/-- One submission that writes all of a surface and leaves it sampleable. -/
def wholeWrite (i : Nat) (v : α) : HostOp α := fun h =>
  (h.setLayout (.surface i) .shaderReadOnly,
    [[.barrier (.surface i) .undefined .transferDst, .overwrite (.surface i) v,
      .barrier (.surface i) .transferDst .shaderReadOnly]])

/-- A new image is in no layout; the clear is gated. -/
def iosurfaceCreate (pol : LayoutPolicy α) (i : Nat) : HostOp α := fun h =>
  let h := { h.setLayout (.surface i) .undefined with
             registered := Function.update h.registered i true }
  match pol.clearIosurf with
  | none => (h, [])
  | some v => wholeWrite i v h

def iosurfaceUploadPixels (i : Nat) (v : α) : HostOp α := fun h =>
  if h.registered i then wholeWrite i v h else (h, [])

/-- A bound texture: realized at its first use, uploaded again at a refresh. -/
def bindTexture (pol : LayoutPolicy α) (b : Nat × α) : HostOp α := fun h =>
  andThen (if h.registered b.1 then skip else iosurfaceCreate pol b.1)
    (iosurfaceUploadPixels b.1 b.2) h

def bindTextures (pol : LayoutPolicy α) (binds : List (Nat × α)) : HostOp α :=
  inOrder (binds.map (bindTexture pol))

/-- The display render target moves to colour attachment from its own layout field. -/
def displayLoad (f : Paint α) : HostOp α := fun h =>
  (h.setLayout .display .colorAttachment,
    [[.barrier .display (h.layout .display) .colorAttachment, .load .display f]])

/- A per-pass target is wrapped in a render target of its own, which starts in no layout
   and is dropped after the draw; the surface's field is set at once. -/
def wrapTarget (i : Nat) : HostOp α := fun h =>
  (h.setLayout (.surface i) .shaderReadOnly, [])

def perPassLoad (i : Nat) (f : Paint α) : HostOp α := fun h =>
  (h, [[.barrier (.surface i) .undefined .colorAttachment, .load (.surface i) f]])

/-- Without an entry the target is seeded from its backing, or created empty. -/
def openTarget (pol : LayoutPolicy α) (i : Nat) (seed : Option α) : HostOp α := fun h =>
  if h.registered i then (h, [])
  else match seed with
    | none => iosurfaceCreate pol i h
    | some v => andThen (iosurfaceCreate pol i) (iosurfaceUploadPixels i v) h

def presentSurface (i : Nat) (f : Paint α) : HostOp α := fun h =>
  ((h.setLayout (.surface i) .shaderReadOnly).setLayout .display .transferSrc,
    [[.barrier (.surface i) (h.layout (.surface i)) .transferSrc,
      .barrier .display (h.layout .display) .transferDst, .modify .display f,
      .barrier (.surface i) .transferSrc .shaderReadOnly,
      .barrier .display .transferDst .transferSrc]])

/-- The readback, with the clear that /tmp/lagfx_clear.txt asks for. -/
def displayReadback (clear : Option α) : HostOp α := fun h =>
  (h.setLayout .display .transferSrc,
    [match clear with
      | none => [.barrier .display (h.layout .display) .transferSrc]
      | some v => [.barrier .display (h.layout .display) .transferDst, .overwrite .display v,
          .barrier .display .transferDst .transferSrc]])

/- What the scanout assembly meets: layers parked outside the scanout, what compositing
   a layer paints, a visible cursor, and the readback when there is one. -/
structure Assembly (α : Type*) where
  parked : Nat → Bool := fun _ => false
  layer : Nat → Paint α
  cursor : Option (Paint α) := none
  readback : Option (Option α) := none

def overlayCursor (cursor : Option (Paint α)) : HostOp α :=
  match cursor with
  | none => skip
  | some f => displayLoad f

def assembleLayer (pol : LayoutPolicy α) (a : Assembly α) (q : Nat) : HostOp α :=
  if a.parked q then skip
  else if pol.overlay then displayLoad (a.layer q)
  else presentSurface q (a.layer q)

/-- The surface joins the queue once, up to sixteen of them. -/
def enqueueLayer (queue : List Nat) (i : Nat) : List Nat :=
  if i ∈ queue then queue
  else if queue.length < 16 then queue++[i]
  else queue

def submitRenderedFrame (a : Assembly α) : HostOp α :=
  andThen (overlayCursor a.cursor)
    (match a.readback with
      | none => skip
      | some clear => displayReadback clear)

/-- After a per-pass draw the whole queue is composited into the display target. -/
def assembleScanout (pol : LayoutPolicy α) (a : Assembly α) (i : Nat) : HostOp α := fun h =>
  if pol.asmblit then
    let queue := enqueueLayer h.frameBlitQueue i
    andThen (inOrder (queue.map (assembleLayer pol a)))
      (andThen (submitRenderedFrame a) (overlayCursor a.cursor)) { h with frameBlitQueue := queue }
  else (h, [])

def recordDraw (pol : LayoutPolicy α) (i : Nat) : Option (Paint α × Assembly α) → HostOp α
  | none => skip
  | some (f, a) => andThen (perPassLoad i f) (assembleScanout pol a i)

/- A draw is skipped when its descriptor set or its vertex data cannot be had; the target
   is already wrapped then. -/
def perPassDraw (pol : LayoutPolicy α) (i : Nat) (seed : Option α) (binds : List (Nat × α))
    (drawn : Option (Paint α × Assembly α)) : HostOp α :=
  inOrder [openTarget pol i seed, wrapTarget i, bindTextures pol binds, recordDraw pol i drawn]

def displayDraw (pol : LayoutPolicy α) (binds : List (Nat × α)) (drawn : Option (Paint α)) :
    HostOp α :=
  andThen (bindTextures pol binds)
    (match drawn with
      | none => skip
      | some f => displayLoad f)

/- The clear covers all of the image whatever the region is; the surface's field is not
   updated. -/
def blitFillTextureColor (i w h : Nat) (v : α) : HostOp α := fun host =>
  if w = 0 ∨ h = 0 ∨ host.registered i = false then (host, [])
  else (host, [[.barrier (.surface i) .undefined .transferDst, .overwrite (.surface i) v,
    .barrier (.surface i) .transferDst .general]])

/-- Both layouts are taken to be GENERAL; neither field is read or updated. -/
def blitCopyTextureToTexture (src dst w h : Nat) (f : Paint α) : HostOp α := fun host =>
  if w = 0 ∨ h = 0 ∨ host.registered src = false ∨ host.registered dst = false then (host, [])
  else (host, [[.barrier (.surface src) .general .transferSrc,
    .barrier (.surface dst) .general .transferDst, .modify (.surface dst) f,
    .barrier (.surface src) .transferSrc .general,
    .barrier (.surface dst) .transferDst .general]])

inductive LayoutEvent (α : Type*) where
  | create (i : Nat)
  | upload (i : Nat) (v : α)
  | perPass (i : Nat) (seed : Option α) (binds : List (Nat × α))
      (drawn : Option (Paint α × Assembly α))
  | display (binds : List (Nat × α)) (drawn : Option (Paint α))
  | fill (i w h : Nat) (v : α)
  | copy (src dst w h : Nat) (f : Paint α)

/-- A surface is created once; later events name it. -/
def layoutOp (pol : LayoutPolicy α) : LayoutEvent α → HostOp α
  | .create i => fun h => if h.registered i then (h, []) else iosurfaceCreate pol i h
  | .upload i v => iosurfaceUploadPixels i v
  | .perPass i seed binds drawn => perPassDraw pol i seed binds drawn
  | .display binds drawn => displayDraw pol binds drawn
  | .fill i w h v => blitFillTextureColor i w h v
  | .copy src dst w h f => blitCopyTextureToTexture src dst w h f

structure LayoutWorld (α : Type*) where
  host : LayoutHost := {}
  images : ImageId → Image α := fun _ => {}

def LayoutWorld.perform (w : LayoutWorld α) (op : HostOp α) : LayoutWorld α where
  host := (op w.host).1
  images := (op w.host).2.foldl submit w.images

def layoutStep (pol : LayoutPolicy α) (w : LayoutWorld α) (e : LayoutEvent α) : LayoutWorld α :=
  w.perform (layoutOp pol e)

/-- The field of every registered surface, and of the display, is the real layout. -/
def LayoutWorld.Tracked (w : LayoutWorld α) : Prop :=
  w.host.layout .display = (w.images .display).layout ∧
    ∀ i, w.host.registered i = true → w.host.layout (.surface i) = (w.images (.surface i)).layout

/-- Every submission of the event is exact and loses nothing, and the fields are right after. -/
def LayoutKept (pol : LayoutPolicy α) (w : LayoutWorld α) (e : LayoutEvent α) : Prop :=
  AllSteps submit Kept w.images (layoutOp pol e w.host).2 ∧ (layoutStep pol w e).Tracked

/- No draw into a surface is recorded, and a target that is only wrapped is sampleable,
   from before or by an upload of this draw; no fill and no copy of a non-empty region
   reaches a registered surface. -/
def LayoutCond (pol : LayoutPolicy α) (w : LayoutWorld α) : LayoutEvent α → Prop
  | .create _ => True
  | .upload _ _ => True
  | .display _ _ => True
  | .perPass i seed binds drawn => drawn.isNone = true ∧
      (i ∈ binds.map Prod.fst ∨
        if w.host.registered i then w.host.layout (.surface i) = .shaderReadOnly
        else seed.isSome = true ∨ pol.clearIosurf.isSome = true)
  | .fill i wd ht _ => wd = 0 ∨ ht = 0 ∨ w.host.registered i = false
  | .copy src dst wd ht _ =>
      wd = 0 ∨ ht = 0 ∨ w.host.registered src = false ∨ w.host.registered dst = false

/-- Every submission of the operation is exact and loses nothing. -/
def LayoutWorld.KeptBy (w : LayoutWorld α) (op : HostOp α) : Prop :=
  AllSteps submit Kept w.images (op w.host).2

@[simp] theorem perform_skip (w : LayoutWorld α) : w.perform skip = w := rfl

@[simp] theorem keptBy_skip (w : LayoutWorld α) : w.KeptBy skip := trivial

@[simp] theorem perform_andThen (w : LayoutWorld α) (a b : HostOp α) :
    w.perform (andThen a b) = (w.perform a).perform b := by
  simp [LayoutWorld.perform, andThen]

@[simp] theorem keptBy_andThen (w : LayoutWorld α) (a b : HostOp α) :
    w.KeptBy (andThen a b) ↔ w.KeptBy a ∧ (w.perform a).KeptBy b :=
  allSteps_append submit _ _ _

/-- The fields and the real layouts agree, a surface that is not registered is untouched,
and every surface is either untouched or sampleable. -/
structure LayoutInv (w : LayoutWorld α) : Prop where
  tracked : ∀ id, w.host.layout id = (w.images id).layout
  unregistered : ∀ i, w.host.registered i = false → w.host.layout (.surface i) = .undefined
  surfaces : ∀ i, w.host.layout (.surface i) = .undefined ∨
    w.host.layout (.surface i) = .shaderReadOnly

theorem LayoutInv.toTracked {w : LayoutWorld α} (hw : LayoutInv w) : w.Tracked :=
  ⟨hw.tracked _, fun _ _ => hw.tracked _⟩

/-- Writing all of an image needs nothing of the layout it was in. -/
theorem kept_wholeWrite (images : ImageId → Image α) (id : ImageId) (v : α) {new : Layout}
    (hnew : new ≠ .undefined) :
    Kept images [.barrier id .undefined .transferDst, .overwrite id v,
      .barrier id .transferDst new] := by
  refine kept_of_exact ?_ ?_
  · simp [Cmd.Defined, hnew]
  · simp [Exact, overwritten, Cmd.image, Cmd.isOverwrite]

@[simp] theorem keptBy_wholeWrite (w : LayoutWorld α) (i : Nat) (v : α) :
    w.KeptBy (wholeWrite i v) :=
  ⟨kept_wholeWrite _ _ _ (by decide), trivial⟩

@[simp] theorem field_wholeWrite (w : LayoutWorld α) (i : Nat) (v : α) (id : ImageId) :
    (w.perform (wholeWrite i v)).host.layout id =
      if id = .surface i then .shaderReadOnly else w.host.layout id := by
  simp [LayoutWorld.perform, wholeWrite, LayoutHost.setLayout, Function.update_apply]

@[simp] theorem real_wholeWrite (w : LayoutWorld α) (i : Nat) (v : α) (id : ImageId) :
    ((w.perform (wholeWrite i v)).images id).layout =
      if id = .surface i then .shaderReadOnly else (w.images id).layout := by
  by_cases h : id = .surface i
  · subst h
    simp [LayoutWorld.perform, wholeWrite, submit]
  · simp only [LayoutWorld.perform, wholeWrite, List.foldl_cons, List.foldl_nil, if_neg h]
    rw [submit_other _ _ (by simpa [Cmd.image] using h)]

@[simp] theorem registered_wholeWrite (w : LayoutWorld α) (i : Nat) (v : α) :
    (w.perform (wholeWrite i v)).host.registered = w.host.registered := rfl

theorem LayoutInv.wholeWrite {w : LayoutWorld α} (hw : LayoutInv w) {i : Nat} (v : α)
    (hi : w.host.registered i = true) : LayoutInv (w.perform (wholeWrite i v)) := by
  refine ⟨fun id => ?_, fun j hj => ?_, fun j => ?_⟩
  · rw [field_wholeWrite, real_wholeWrite, hw.tracked]
  · have hne : j ≠ i := by
      rintro rfl
      simp [hi] at hj
    simpa [hne] using hw.unregistered j hj
  · by_cases hj : j = i
    · simp [hj]
    · simpa [hj] using hw.surfaces j

/-- A surface that is created is untouched until it is cleared. -/
def createdLayout (pol : LayoutPolicy α) : Layout :=
  if pol.clearIosurf.isSome then .shaderReadOnly else .undefined

@[simp] theorem keptBy_iosurfaceCreate (pol : LayoutPolicy α) (w : LayoutWorld α) (i : Nat) :
    w.KeptBy (iosurfaceCreate pol i) := by
  rw [LayoutWorld.KeptBy]
  cases h : pol.clearIosurf with
  | none => simp [iosurfaceCreate, h, AllSteps]
  | some v =>
    simp only [iosurfaceCreate, h, wholeWrite]
    exact ⟨kept_wholeWrite _ _ _ (by decide), trivial⟩

@[simp] theorem field_iosurfaceCreate (pol : LayoutPolicy α) (w : LayoutWorld α) (i : Nat)
    (id : ImageId) : (w.perform (iosurfaceCreate pol i)).host.layout id =
      if id = .surface i then createdLayout pol else w.host.layout id := by
  cases h : pol.clearIosurf with
  | none =>
    simp [LayoutWorld.perform, iosurfaceCreate, h, LayoutHost.setLayout, createdLayout,
      Function.update_apply]
  | some v =>
    by_cases hid : id = .surface i <;>
      simp [LayoutWorld.perform, iosurfaceCreate, h, LayoutHost.setLayout, createdLayout,
        wholeWrite, hid]

theorem real_iosurfaceCreate (pol : LayoutPolicy α) {w : LayoutWorld α} {i : Nat}
    (hi : (w.images (.surface i)).layout = .undefined) (id : ImageId) :
    ((w.perform (iosurfaceCreate pol i)).images id).layout =
      if id = .surface i then createdLayout pol else (w.images id).layout := by
  cases h : pol.clearIosurf with
  | none =>
    simp only [LayoutWorld.perform, iosurfaceCreate, h, List.foldl_nil, createdLayout]
    split_ifs with hid <;> simp_all
  | some v =>
    have hw := real_wholeWrite ⟨{ w.host.setLayout (.surface i) .undefined with
      registered := Function.update w.host.registered i true }, w.images⟩ i v id
    simpa [LayoutWorld.perform, iosurfaceCreate, h, createdLayout] using hw

@[simp] theorem registered_iosurfaceCreate (pol : LayoutPolicy α) (w : LayoutWorld α) (i : Nat) :
    (w.perform (iosurfaceCreate pol i)).host.registered =
      Function.update w.host.registered i true := by
  cases h : pol.clearIosurf <;> simp [LayoutWorld.perform, iosurfaceCreate, h, wholeWrite,
    LayoutHost.setLayout]

theorem createdLayout_cases (pol : LayoutPolicy α) :
    createdLayout pol = .undefined ∨ createdLayout pol = .shaderReadOnly := by
  rw [createdLayout]
  split_ifs
  · exact Or.inr rfl
  · exact Or.inl rfl

theorem LayoutInv.create {w : LayoutWorld α} (hw : LayoutInv w) (pol : LayoutPolicy α) {i : Nat}
    (hi : w.host.registered i = false) : LayoutInv (w.perform (iosurfaceCreate pol i)) := by
  have hreal : (w.images (.surface i)).layout = .undefined := by
    rw [← hw.tracked, hw.unregistered i hi]
  refine ⟨fun id => ?_, fun j hj => ?_, fun j => ?_⟩
  · rw [field_iosurfaceCreate, real_iosurfaceCreate pol hreal, hw.tracked]
  · have hne : j ≠ i := by
      rintro rfl
      simp at hj
    simpa [hne] using hw.unregistered j (by simpa [hne] using hj)
  · by_cases hj : j = i
    · simpa [hj] using createdLayout_cases pol
    · simpa [hj] using hw.surfaces j

theorem perform_upload {w : LayoutWorld α} {i : Nat} (v : α) (hi : w.host.registered i = true) :
    w.perform (iosurfaceUploadPixels i v) = w.perform (wholeWrite i v) := by
  simp [LayoutWorld.perform, iosurfaceUploadPixels, hi]

@[simp] theorem keptBy_upload (w : LayoutWorld α) (i : Nat) (v : α) :
    w.KeptBy (iosurfaceUploadPixels i v) := by
  rw [LayoutWorld.KeptBy, iosurfaceUploadPixels]
  split_ifs
  · exact keptBy_wholeWrite w i v
  · trivial

/-- An upload, realizing the surface first where there is none, leaves it sampleable. -/
theorem perform_bindTexture (pol : LayoutPolicy α) (w : LayoutWorld α) (b : Nat × α) :
    w.perform (bindTexture pol b) =
      if w.host.registered b.1 then w.perform (wholeWrite b.1 b.2)
      else (w.perform (iosurfaceCreate pol b.1)).perform (wholeWrite b.1 b.2) := by
  cases h : w.host.registered b.1 with
  | true =>
    have hb : w.perform (bindTexture pol b) = w.perform (andThen skip
        (iosurfaceUploadPixels b.1 b.2)) := by
      simp [LayoutWorld.perform, bindTexture, h]
    rw [hb, perform_andThen, perform_skip, perform_upload _ h, if_pos rfl]
  | false =>
    have hb : w.perform (bindTexture pol b) = w.perform (andThen (iosurfaceCreate pol b.1)
        (iosurfaceUploadPixels b.1 b.2)) := by
      simp [LayoutWorld.perform, bindTexture, h]
    rw [hb, perform_andThen, perform_upload _ (by simp), if_neg (by simp)]

@[simp] theorem keptBy_bindTexture (pol : LayoutPolicy α) (w : LayoutWorld α) (b : Nat × α) :
    w.KeptBy (bindTexture pol b) := by
  have h : w.KeptBy (andThen (if w.host.registered b.1 then skip else iosurfaceCreate pol b.1)
      (iosurfaceUploadPixels b.1 b.2)) := by
    rw [keptBy_andThen]
    refine ⟨?_, keptBy_upload _ _ _⟩
    split_ifs
    · exact keptBy_skip w
    · exact keptBy_iosurfaceCreate pol w b.1
  exact h

theorem images_iosurfaceCreate_other (pol : LayoutPolicy α) (w : LayoutWorld α) {i : Nat}
    {id : ImageId} (hid : id ≠ .surface i) :
    (w.perform (iosurfaceCreate pol i)).images id = w.images id := by
  cases h : pol.clearIosurf with
  | none => simp [LayoutWorld.perform, iosurfaceCreate, h]
  | some v =>
    simp only [LayoutWorld.perform, iosurfaceCreate, h, wholeWrite, List.foldl_cons,
      List.foldl_nil]
    exact submit_other _ _ (by simpa [Cmd.image] using hid)

theorem field_bindTexture (pol : LayoutPolicy α) (w : LayoutWorld α) (b : Nat × α)
    (id : ImageId) : (w.perform (bindTexture pol b)).host.layout id =
      if id = .surface b.1 then .shaderReadOnly else w.host.layout id := by
  rw [perform_bindTexture]
  split_ifs with h hid hid <;> simp [hid]

theorem real_bindTexture (pol : LayoutPolicy α) (w : LayoutWorld α) (b : Nat × α)
    (id : ImageId) : ((w.perform (bindTexture pol b)).images id).layout =
      if id = .surface b.1 then .shaderReadOnly else (w.images id).layout := by
  rw [perform_bindTexture]
  split_ifs with h hid hid
  · simp [hid]
  · simp [hid]
  · simp [hid]
  · rw [real_wholeWrite, if_neg hid, images_iosurfaceCreate_other pol w hid]

theorem registered_bindTexture (pol : LayoutPolicy α) (w : LayoutWorld α) (b : Nat × α) :
    (w.perform (bindTexture pol b)).host.registered =
      Function.update w.host.registered b.1 true := by
  rw [perform_bindTexture]
  split_ifs with h
  · rw [registered_wholeWrite, ← h, Function.update_eq_self]
  · simp

/-- The surfaces a draw binds. -/
def boundSurfaces (binds : List (Nat × α)) : List Nat := binds.map Prod.fst

theorem ite_boundSurfaces_cons {β : Type*} (b : Nat × α) (binds : List (Nat × α)) (i : Nat)
    (x y : β) : (if i ∈ boundSurfaces binds then x else if i = b.1 then x else y) =
      if i ∈ boundSurfaces (b :: binds) then x else y := by
  by_cases hb : i = b.1
  · have hmem : i ∈ boundSurfaces (b :: binds) := by simp [boundSurfaces, hb]
    rw [if_pos hmem, if_pos hb]
    exact ite_self x
  · have hmem : i ∈ boundSurfaces (b :: binds) ↔ i ∈ boundSurfaces binds := by
      rw [boundSurfaces, List.map_cons, List.mem_cons, or_iff_right hb, boundSurfaces]
    simp only [hmem, if_neg hb]

theorem bindTextures_cons (pol : LayoutPolicy α) (b : Nat × α) (binds : List (Nat × α)) :
    bindTextures pol (b :: binds) = andThen (bindTexture pol b) (bindTextures pol binds) := rfl

@[simp] theorem keptBy_bindTextures (pol : LayoutPolicy α) (binds : List (Nat × α)) :
    ∀ w : LayoutWorld α, w.KeptBy (bindTextures pol binds) := by
  induction binds with
  | nil => exact fun w => keptBy_skip w
  | cons b binds ih =>
    intro w
    rw [bindTextures_cons, keptBy_andThen]
    exact ⟨keptBy_bindTexture pol w b, ih _⟩

/-- Both the field and the real layout of what is bound are sampleable after. -/
theorem field_bindTextures (pol : LayoutPolicy α) (binds : List (Nat × α)) (i : Nat) :
    ∀ w : LayoutWorld α, (w.perform (bindTextures pol binds)).host.layout (.surface i) =
      if i ∈ boundSurfaces binds then .shaderReadOnly else w.host.layout (.surface i) := by
  induction binds with
  | nil => exact fun w => rfl
  | cons b binds ih =>
    intro w
    rw [bindTextures_cons, perform_andThen, ih, field_bindTexture, ← ite_boundSurfaces_cons]
    simp only [ImageId.surface.injEq]

theorem real_bindTextures (pol : LayoutPolicy α) (binds : List (Nat × α)) (i : Nat) :
    ∀ w : LayoutWorld α, ((w.perform (bindTextures pol binds)).images (.surface i)).layout =
      if i ∈ boundSurfaces binds then .shaderReadOnly else (w.images (.surface i)).layout := by
  induction binds with
  | nil => exact fun w => rfl
  | cons b binds ih =>
    intro w
    rw [bindTextures_cons, perform_andThen, ih, real_bindTexture, ← ite_boundSurfaces_cons]
    simp only [ImageId.surface.injEq]

theorem display_bindTextures (pol : LayoutPolicy α) (binds : List (Nat × α)) :
    ∀ w : LayoutWorld α,
      (w.perform (bindTextures pol binds)).host.layout .display = w.host.layout .display ∧
      ((w.perform (bindTextures pol binds)).images .display).layout =
        (w.images .display).layout := by
  induction binds with
  | nil => exact fun w => ⟨rfl, rfl⟩
  | cons b binds ih =>
    intro w
    rw [bindTextures_cons, perform_andThen, (ih _).1, (ih _).2, field_bindTexture,
      real_bindTexture]
    simp

theorem registered_bindTextures (pol : LayoutPolicy α) (binds : List (Nat × α)) (i : Nat) :
    ∀ w : LayoutWorld α, (w.perform (bindTextures pol binds)).host.registered i =
      if i ∈ boundSurfaces binds then true else w.host.registered i := by
  induction binds with
  | nil => exact fun w => rfl
  | cons b binds ih =>
    intro w
    rw [bindTextures_cons, perform_andThen, ih, registered_bindTexture, ← ite_boundSurfaces_cons,
      Function.update_apply]

/-- Binding restores the invariant where only surfaces it binds broke it. -/
theorem inv_bindTextures (pol : LayoutPolicy α) {w : LayoutWorld α} (binds : List (Nat × α))
    (hdisplay : w.host.layout .display = (w.images .display).layout)
    (h : ∀ i, i ∉ boundSurfaces binds →
      w.host.layout (.surface i) = (w.images (.surface i)).layout ∧
      (w.host.registered i = false → w.host.layout (.surface i) = .undefined) ∧
      (w.host.layout (.surface i) = .undefined ∨
        w.host.layout (.surface i) = .shaderReadOnly)) :
    LayoutInv (w.perform (bindTextures pol binds)) := by
  refine ⟨fun id => ?_, fun i hi => ?_, fun i => ?_⟩
  · cases id with
    | display =>
      obtain ⟨hf, hr⟩ := display_bindTextures pol binds w
      rw [hf, hr, hdisplay]
    | surface i =>
      rw [field_bindTextures, real_bindTextures]
      split_ifs with hb
      · rfl
      · exact (h i hb).1
  · rw [registered_bindTextures] at hi
    rw [field_bindTextures]
    split_ifs at hi ⊢ with hb
    exact (h i hb).2.1 hi
  · rw [field_bindTextures]
    split_ifs with hb
    · exact Or.inr rfl
    · exact (h i hb).2.2

theorem LayoutInv.bindTextures {w : LayoutWorld α} (hw : LayoutInv w) (pol : LayoutPolicy α)
    (binds : List (Nat × α)) : LayoutInv (w.perform (bindTextures pol binds)) :=
  inv_bindTextures pol binds (hw.tracked _)
    fun i _ => ⟨hw.tracked _, hw.unregistered i, hw.surfaces i⟩

theorem keptBy_displayLoad {w : LayoutWorld α} (f : Paint α)
    (h : w.host.layout .display = (w.images .display).layout) : w.KeptBy (displayLoad f) := by
  refine ⟨kept_of_exact ?_ ?_, trivial⟩
  · simp [Cmd.Defined]
  · simp [Exact, h]

theorem LayoutInv.displayLoad {w : LayoutWorld α} (hw : LayoutInv w) (f : Paint α) :
    LayoutInv (w.perform (displayLoad f)) := by
  have hsurface : ∀ i, (w.perform (SurfaceLayout.displayLoad f)).images (.surface i) =
      w.images (.surface i) := fun i => submit_other _ _ (by simp [Cmd.image])
  refine ⟨fun id => ?_, fun i hi => ?_, fun i => ?_⟩
  · cases id with
    | display => simp [LayoutWorld.perform, SurfaceLayout.displayLoad, LayoutHost.setLayout, submit]
    | surface i =>
      rw [hsurface, ← hw.tracked]
      simp [LayoutWorld.perform, SurfaceLayout.displayLoad, LayoutHost.setLayout]
  · simpa [LayoutWorld.perform, SurfaceLayout.displayLoad, LayoutHost.setLayout]
      using hw.unregistered i hi
  · simpa [LayoutWorld.perform, SurfaceLayout.displayLoad, LayoutHost.setLayout]
      using hw.surfaces i

theorem perform_openTarget (pol : LayoutPolicy α) (w : LayoutWorld α) (i : Nat) (seed : Option α) :
    w.perform (openTarget pol i seed) =
      if w.host.registered i then w
      else match seed with
        | none => w.perform (iosurfaceCreate pol i)
        | some v => (w.perform (iosurfaceCreate pol i)).perform (wholeWrite i v) := by
  cases h : w.host.registered i with
  | true => simp [LayoutWorld.perform, openTarget, h]
  | false =>
    cases seed with
    | none => simp [LayoutWorld.perform, openTarget, h]
    | some v =>
      have ho : w.perform (openTarget pol i (some v)) =
          w.perform (andThen (iosurfaceCreate pol i) (iosurfaceUploadPixels i v)) := by
        simp [LayoutWorld.perform, openTarget, h]
      rw [ho, perform_andThen, perform_upload v (by simp)]
      rfl

@[simp] theorem keptBy_openTarget (pol : LayoutPolicy α) (w : LayoutWorld α) (i : Nat)
    (seed : Option α) : w.KeptBy (openTarget pol i seed) := by
  cases hr : w.host.registered i with
  | true => simp [LayoutWorld.KeptBy, openTarget, hr, AllSteps]
  | false =>
    cases seed with
    | none =>
      have h := keptBy_iosurfaceCreate pol w i
      simpa [LayoutWorld.KeptBy, openTarget, hr] using h
    | some v =>
      have h : w.KeptBy (andThen (iosurfaceCreate pol i) (iosurfaceUploadPixels i v)) := by simp
      simpa [LayoutWorld.KeptBy, openTarget, hr] using h

theorem registered_openTarget (pol : LayoutPolicy α) (w : LayoutWorld α) (i : Nat)
    (seed : Option α) : (w.perform (openTarget pol i seed)).host.registered i = true := by
  rw [perform_openTarget]
  split_ifs with h
  · exact h
  · cases seed <;> simp

theorem LayoutInv.openTarget {w : LayoutWorld α} (hw : LayoutInv w) (pol : LayoutPolicy α)
    (i : Nat) (seed : Option α) : LayoutInv (w.perform (openTarget pol i seed)) := by
  rw [perform_openTarget]
  split_ifs with h
  · exact hw
  · have hc := hw.create pol (by simpa using h)
    cases seed with
    | none => exact hc
    | some v => exact hc.wholeWrite v (by simp)

/-- A target is sampleable once it is open exactly when it was, is seeded or is cleared. -/
theorem field_openTarget (pol : LayoutPolicy α) (w : LayoutWorld α) (i : Nat)
    (seed : Option α) :
    (w.perform (openTarget pol i seed)).host.layout (.surface i) = .shaderReadOnly ↔
      if w.host.registered i then w.host.layout (.surface i) = .shaderReadOnly
      else seed.isSome = true ∨ pol.clearIosurf.isSome = true := by
  rw [perform_openTarget]
  split_ifs with h
  · exact Iff.rfl
  · cases seed with
    | none => cases hc : pol.clearIosurf <;> simp [createdLayout, hc]
    | some v => simp

theorem wrapTarget_perform (w : LayoutWorld α) (i : Nat) :
    w.perform (wrapTarget i) =
      ⟨w.host.setLayout (.surface i) .shaderReadOnly, w.images⟩ := rfl

/-- The world in which a per-pass draw records its commands. -/
def beforeDraw (pol : LayoutPolicy α) (w : LayoutWorld α) (i : Nat) (seed : Option α)
    (binds : List (Nat × α)) : LayoutWorld α :=
  ((w.perform (openTarget pol i seed)).perform (wrapTarget i)).perform (bindTextures pol binds)

theorem field_beforeDraw (pol : LayoutPolicy α) (w : LayoutWorld α) (i : Nat) (seed : Option α)
    (binds : List (Nat × α)) :
    (beforeDraw pol w i seed binds).host.layout (.surface i) = .shaderReadOnly := by
  rw [beforeDraw, field_bindTextures, wrapTarget_perform]
  split_ifs
  · rfl
  · simp [LayoutHost.setLayout]

theorem real_beforeDraw (pol : LayoutPolicy α) {w : LayoutWorld α} (hw : LayoutInv w) (i : Nat)
    (seed : Option α) (binds : List (Nat × α)) :
    ((beforeDraw pol w i seed binds).images (.surface i)).layout =
      if i ∈ boundSurfaces binds then .shaderReadOnly
      else (w.perform (openTarget pol i seed)).host.layout (.surface i) := by
  rw [beforeDraw, real_bindTextures, wrapTarget_perform, (hw.openTarget pol i seed).tracked]

theorem registered_beforeDraw (pol : LayoutPolicy α) (w : LayoutWorld α) (i : Nat)
    (seed : Option α) (binds : List (Nat × α)) :
    (beforeDraw pol w i seed binds).host.registered i = true := by
  rw [beforeDraw, registered_bindTextures, wrapTarget_perform]
  split_ifs
  · rfl
  · exact registered_openTarget pol w i seed

/-- A target that is only wrapped keeps the invariant when it is sampleable. -/
theorem inv_beforeDraw (pol : LayoutPolicy α) {w : LayoutWorld α} (hw : LayoutInv w) {i : Nat}
    {seed : Option α} {binds : List (Nat × α)}
    (h : i ∈ boundSurfaces binds ∨
      (w.perform (openTarget pol i seed)).host.layout (.surface i) = .shaderReadOnly) :
    LayoutInv (beforeDraw pol w i seed binds) := by
  have ho := hw.openTarget pol i seed
  refine inv_bindTextures pol binds (ho.tracked _) fun j hj => ?_
  rw [wrapTarget_perform]
  by_cases hji : j = i
  · subst hji
    have hs := h.resolve_left hj
    have hr := registered_openTarget pol w j seed
    simp [LayoutHost.setLayout, hr, ← ho.tracked, hs]
  · simp only [LayoutHost.setLayout, Function.update_of_ne (by simpa using hji : ImageId.surface j ≠ .surface i)]
    exact ⟨ho.tracked _, ho.unregistered j, ho.surfaces j⟩

/-- A surface that was drawn into: its field says sampleable, it is a colour attachment. -/
structure Drawn (w : LayoutWorld α) (i : Nat) : Prop where
  registered : w.host.registered i = true
  field : w.host.layout (.surface i) = .shaderReadOnly
  real : (w.images (.surface i)).layout = .colorAttachment

theorem Drawn.not_tracked {w : LayoutWorld α} {i : Nat} (h : Drawn w i) : ¬w.Tracked := by
  intro ht
  have := ht.2 i h.registered
  rw [h.field, h.real] at this
  exact Layout.noConfusion this

/-- Nothing exact mends a surface that was drawn into. -/
def KeepsDrawn (op : HostOp α) (i : Nat) : Prop :=
  ∀ w : LayoutWorld α, Drawn w i → w.KeptBy op → Drawn (w.perform op) i

theorem keepsDrawn_skip (i : Nat) : KeepsDrawn (skip : HostOp α) i := fun _ h _ => h

theorem KeepsDrawn.andThen {a b : HostOp α} {i : Nat} (ha : KeepsDrawn a i)
    (hb : KeepsDrawn b i) : KeepsDrawn (andThen a b) i := by
  intro w hw hk
  rw [keptBy_andThen] at hk
  rw [perform_andThen]
  exact hb _ (ha w hw hk.1) hk.2

theorem KeepsDrawn.inOrder {i : Nat} : ∀ {ops : List (HostOp α)},
    (∀ op ∈ ops, KeepsDrawn op i) → KeepsDrawn (inOrder ops) i := by
  intro ops
  induction ops with
  | nil => intro _; exact keepsDrawn_skip i
  | cons op ops ih =>
    intro h
    exact (h op List.mem_cons_self).andThen (ih fun o ho => h o (List.mem_cons_of_mem op ho))

theorem keepsDrawn_displayLoad (f : Paint α) (i : Nat) : KeepsDrawn (displayLoad f) i := by
  intro w hw _
  have himage : (w.perform (displayLoad f)).images (.surface i) = w.images (.surface i) :=
    submit_other _ _ (by simp [Cmd.image])
  refine ⟨hw.registered, ?_, by rw [himage, hw.real]⟩
  simpa [LayoutWorld.perform, displayLoad, LayoutHost.setLayout] using hw.field

theorem keepsDrawn_displayReadback (clear : Option α) (i : Nat) :
    KeepsDrawn (displayReadback clear) i := by
  intro w hw _
  have himage : (w.perform (displayReadback clear)).images (.surface i) =
      w.images (.surface i) := by
    cases clear with
    | none => exact submit_other _ _ (by simp [Cmd.image])
    | some v => exact submit_other _ _ (by simp [Cmd.image])
  refine ⟨hw.registered, ?_, by rw [himage, hw.real]⟩
  simpa [LayoutWorld.perform, displayReadback, LayoutHost.setLayout] using hw.field

/-- A present of the surface itself names the layout in its field, which is not the real one. -/
theorem keepsDrawn_presentSurface (q : Nat) (f : Paint α) (i : Nat) :
    KeepsDrawn (presentSurface q f) i := by
  intro w hw hk
  by_cases hq : q = i
  · subst hq
    have hex := hk.1.1.1
    simp [hw.field, hw.real] at hex
  · have himage : (w.perform (presentSurface q f)).images (.surface i) = w.images (.surface i) :=
      submit_other _ _ (by simp [Cmd.image, Ne.symm hq])
    refine ⟨hw.registered, ?_, by rw [himage, hw.real]⟩
    simpa [LayoutWorld.perform, presentSurface, LayoutHost.setLayout, Function.update_apply,
      Ne.symm hq] using hw.field

theorem keepsDrawn_overlayCursor (cursor : Option (Paint α)) (i : Nat) :
    KeepsDrawn (overlayCursor cursor) i := by
  cases cursor with
  | none => exact keepsDrawn_skip i
  | some f => exact keepsDrawn_displayLoad f i

theorem keepsDrawn_assembleLayer (pol : LayoutPolicy α) (a : Assembly α) (q i : Nat) :
    KeepsDrawn (assembleLayer pol a q) i := by
  rw [assembleLayer]
  split_ifs
  · exact keepsDrawn_skip i
  · exact keepsDrawn_displayLoad _ i
  · exact keepsDrawn_presentSurface q _ i

theorem keepsDrawn_submitRenderedFrame (a : Assembly α) (i : Nat) :
    KeepsDrawn (submitRenderedFrame a) i := by
  refine (keepsDrawn_overlayCursor a.cursor i).andThen ?_
  cases a.readback with
  | none => exact keepsDrawn_skip i
  | some clear => exact keepsDrawn_displayReadback clear i

theorem keepsDrawn_assembleScanout (pol : LayoutPolicy α) (a : Assembly α) (q i : Nat) :
    KeepsDrawn (assembleScanout pol a q) i := by
  intro w hw hk
  cases hp : pol.asmblit with
  | false => simpa [LayoutWorld.perform, assembleScanout, hp] using hw
  | true =>
    have hlayers : KeepsDrawn (inOrder ((enqueueLayer w.host.frameBlitQueue q).map
        (assembleLayer pol a))) i := by
      refine KeepsDrawn.inOrder fun op hop => ?_
      obtain ⟨layer, _, rfl⟩ := List.mem_map.mp hop
      exact keepsDrawn_assembleLayer pol a layer i
    have hall := hlayers.andThen ((keepsDrawn_submitRenderedFrame a i).andThen
      (keepsDrawn_overlayCursor a.cursor i))
    simp only [LayoutWorld.KeptBy, assembleScanout, hp, if_true] at hk
    have := hall ⟨{ w.host with frameBlitQueue := enqueueLayer w.host.frameBlitQueue q }, w.images⟩
      ⟨hw.registered, hw.field, hw.real⟩ hk
    simpa [LayoutWorld.perform, assembleScanout, hp] using this

/-- An exact draw into a surface leaves it a colour attachment behind the field's back. -/
theorem drawn_perPassLoad {w : LayoutWorld α} {i : Nat} (f : Paint α)
    (hr : w.host.registered i = true) (hf : w.host.layout (.surface i) = .shaderReadOnly) :
    Drawn (w.perform (perPassLoad i f)) i := by
  refine ⟨hr, hf, ?_⟩
  simp [LayoutWorld.perform, perPassLoad, submit]

theorem perform_perPassDraw (pol : LayoutPolicy α) (w : LayoutWorld α) (i : Nat)
    (seed : Option α) (binds : List (Nat × α)) (drawn : Option (Paint α × Assembly α)) :
    w.perform (perPassDraw pol i seed binds drawn) =
      (beforeDraw pol w i seed binds).perform (recordDraw pol i drawn) := by
  simp [perPassDraw, inOrder, beforeDraw]

theorem keptBy_perPassDraw (pol : LayoutPolicy α) (w : LayoutWorld α) (i : Nat)
    (seed : Option α) (binds : List (Nat × α)) (drawn : Option (Paint α × Assembly α)) :
    w.KeptBy (perPassDraw pol i seed binds drawn) ↔
      (beforeDraw pol w i seed binds).KeptBy (recordDraw pol i drawn) := by
  have hwrap : ∀ w : LayoutWorld α, w.KeptBy (wrapTarget i) := fun _ => trivial
  simp [perPassDraw, inOrder, beforeDraw, hwrap]

/-- A per-pass draw is right exactly when nothing is drawn and the target is sampleable. -/
theorem perPass_kept_iff (pol : LayoutPolicy α) {w : LayoutWorld α} (hw : LayoutInv w) (i : Nat)
    (seed : Option α) (binds : List (Nat × α)) (drawn : Option (Paint α × Assembly α)) :
    LayoutKept pol w (.perPass i seed binds drawn) ↔
      LayoutCond pol w (.perPass i seed binds drawn) := by
  have hopen := field_openTarget pol w i seed
  have hkept : LayoutKept pol w (.perPass i seed binds drawn) ↔
      (beforeDraw pol w i seed binds).KeptBy (recordDraw pol i drawn) ∧
        ((beforeDraw pol w i seed binds).perform (recordDraw pol i drawn)).Tracked := by
    rw [← keptBy_perPassDraw, ← perform_perPassDraw]
    exact Iff.rfl
  rw [hkept, LayoutCond, ← hopen]
  have hfield := field_beforeDraw pol w i seed binds
  have hreg := registered_beforeDraw pol w i seed binds
  cases drawn with
  | some d =>
    obtain ⟨f, a⟩ := d
    simp only [Option.isNone_some, Bool.false_eq_true, false_and, iff_false, not_and]
    intro hk
    rw [recordDraw, keptBy_andThen] at hk
    rw [recordDraw, perform_andThen]
    exact (keepsDrawn_assembleScanout pol a i i _ (drawn_perPassLoad f hreg hfield)
      hk.2).not_tracked
  | none =>
    simp only [recordDraw, perform_skip, keptBy_skip, true_and, Option.isNone_none]
    constructor
    · intro ht
      have htracked := ht.2 i hreg
      rw [hfield, real_beforeDraw pol hw] at htracked
      split_ifs at htracked with hb
      · exact Or.inl hb
      · exact Or.inr htracked.symm
    · intro hc
      exact (inv_beforeDraw pol hw hc).toTracked

theorem fill_kept_iff (pol : LayoutPolicy α) {w : LayoutWorld α} (hw : LayoutInv w)
    (i wd ht : Nat) (v : α) :
    LayoutKept pol w (.fill i wd ht v) ↔ LayoutCond pol w (.fill i wd ht v) := by
  rw [LayoutCond]
  by_cases hc : wd = 0 ∨ ht = 0 ∨ w.host.registered i = false
  · simp [LayoutKept, layoutStep, LayoutWorld.perform, layoutOp, blitFillTextureColor, hc,
      AllSteps, hw.toTracked]
  · have hreg : w.host.registered i = true := by
      have := not_or.mp (not_or.mp hc).2
      simpa using this.2
    refine iff_of_false ?_ hc
    rintro ⟨_, ht⟩
    have hfield := ht.2 i (by
      simpa [layoutStep, LayoutWorld.perform, layoutOp, blitFillTextureColor, hc] using hreg)
    simp [layoutStep, LayoutWorld.perform, layoutOp, blitFillTextureColor, hc, submit] at hfield
    rcases hw.surfaces i with h | h <;> simp [h] at hfield

theorem copy_kept_iff (pol : LayoutPolicy α) {w : LayoutWorld α} (hw : LayoutInv w)
    (src dst wd ht : Nat) (f : Paint α) :
    LayoutKept pol w (.copy src dst wd ht f) ↔ LayoutCond pol w (.copy src dst wd ht f) := by
  rw [LayoutCond]
  by_cases hc : wd = 0 ∨ ht = 0 ∨ w.host.registered src = false ∨ w.host.registered dst = false
  · simp [LayoutKept, layoutStep, LayoutWorld.perform, layoutOp, blitCopyTextureToTexture, hc,
      AllSteps, hw.toTracked]
  · refine iff_of_false ?_ hc
    rintro ⟨hk, _⟩
    simp only [layoutOp, blitCopyTextureToTexture, hc, if_false] at hk
    -- the first barrier takes the source to be in GENERAL
    have hfirst := hk.1.1.1
    rw [← hw.tracked] at hfirst
    rcases hw.surfaces src with h | h <;> simp [h] at hfirst

theorem create_kept (pol : LayoutPolicy α) {w : LayoutWorld α} (hw : LayoutInv w) (i : Nat) :
    w.KeptBy (layoutOp pol (.create i)) ∧ LayoutInv (layoutStep pol w (.create i)) := by
  cases hr : w.host.registered i with
  | true => simpa [LayoutWorld.KeptBy, layoutStep, LayoutWorld.perform, layoutOp, hr, AllSteps]
      using hw
  | false =>
    have hk := keptBy_iosurfaceCreate pol w i
    have hi := hw.create pol hr
    exact ⟨by simpa [LayoutWorld.KeptBy, layoutOp, hr] using hk,
      by simpa [layoutStep, LayoutWorld.perform, layoutOp, hr] using hi⟩

theorem upload_kept (pol : LayoutPolicy α) {w : LayoutWorld α} (hw : LayoutInv w) (i : Nat)
    (v : α) : w.KeptBy (layoutOp pol (.upload i v)) ∧
      LayoutInv (layoutStep pol w (.upload i v)) := by
  refine ⟨keptBy_upload w i v, ?_⟩
  rw [layoutStep, layoutOp]
  cases hr : w.host.registered i with
  | true =>
    rw [perform_upload v hr]
    exact hw.wholeWrite v hr
  | false => simpa [LayoutWorld.perform, iosurfaceUploadPixels, hr] using hw

theorem display_kept (pol : LayoutPolicy α) {w : LayoutWorld α} (hw : LayoutInv w)
    (binds : List (Nat × α)) (drawn : Option (Paint α)) :
    w.KeptBy (layoutOp pol (.display binds drawn)) ∧
      LayoutInv (layoutStep pol w (.display binds drawn)) := by
  have hb := hw.bindTextures pol binds
  cases drawn with
  | none =>
    have hop : layoutOp pol (.display binds none) = andThen (bindTextures pol binds) skip := rfl
    rw [layoutStep, hop, keptBy_andThen, perform_andThen]
    exact ⟨⟨keptBy_bindTextures pol binds w, keptBy_skip _⟩, hb⟩
  | some f =>
    have hop : layoutOp pol (.display binds (some f)) =
        andThen (bindTextures pol binds) (displayLoad f) := rfl
    rw [layoutStep, hop, keptBy_andThen, perform_andThen]
    exact ⟨⟨keptBy_bindTextures pol binds w, keptBy_displayLoad f (hb.tracked _)⟩,
      hb.displayLoad f⟩

theorem layoutKept_iff (pol : LayoutPolicy α) (w : LayoutWorld α) (e : LayoutEvent α)
    (hw : LayoutInv w) : LayoutKept pol w e ↔ LayoutCond pol w e := by
  cases e with
  | create i =>
    obtain ⟨hk, hi⟩ := create_kept pol hw i
    exact iff_of_true ⟨hk, hi.toTracked⟩ trivial
  | upload i v =>
    obtain ⟨hk, hi⟩ := upload_kept pol hw i v
    exact iff_of_true ⟨hk, hi.toTracked⟩ trivial
  | display binds drawn =>
    obtain ⟨hk, hi⟩ := display_kept pol hw binds drawn
    exact iff_of_true ⟨hk, hi.toTracked⟩ trivial
  | perPass i seed binds drawn => exact perPass_kept_iff pol hw i seed binds drawn
  | fill i wd ht v => exact fill_kept_iff pol hw i wd ht v
  | copy src dst wd ht f => exact copy_kept_iff pol hw src dst wd ht f

/-- An event that is right keeps the invariant. -/
theorem layoutInv_step (pol : LayoutPolicy α) (w : LayoutWorld α) (e : LayoutEvent α)
    (hw : LayoutInv w) (hk : LayoutKept pol w e) : LayoutInv (layoutStep pol w e) := by
  have hc := (layoutKept_iff pol w e hw).mp hk
  cases e with
  | create i => exact (create_kept pol hw i).2
  | upload i v => exact (upload_kept pol hw i v).2
  | display binds drawn => exact (display_kept pol hw binds drawn).2
  | perPass i seed binds drawn =>
    obtain ⟨hnone, hopen⟩ := hc
    obtain rfl := Option.isNone_iff_eq_none.mp hnone
    rw [layoutStep, layoutOp, perform_perPassDraw]
    exact inv_beforeDraw pol hw (hopen.imp_right (field_openTarget pol w i seed).mpr)
  | fill i wd ht v =>
    rw [LayoutCond] at hc
    simpa [layoutStep, LayoutWorld.perform, layoutOp, blitFillTextureColor, hc] using hw
  | copy src dst wd ht f =>
    rw [LayoutCond] at hc
    simpa [layoutStep, LayoutWorld.perform, layoutOp, blitCopyTextureToTexture, hc] using hw

theorem layoutInv_start : LayoutInv ({} : LayoutWorld α) :=
  ⟨fun _ => rfl, fun _ _ => rfl, fun _ => Or.inl rfl⟩

/-- Over a whole run the barriers name the real layouts, loads lose nothing and the
fields are right, exactly when no event draws into a surface, wraps one that is not
sampleable, or fills or copies a region of one. -/
theorem layout_tracked_iff (pol : LayoutPolicy α) (events : List (LayoutEvent α)) :
    AllSteps (layoutStep pol) (LayoutKept pol) {} events ↔
      AllSteps (layoutStep pol) (LayoutCond pol) {} events :=
  allSteps_iff (layoutStep pol) (layoutKept_iff pol) (layoutInv_step pol) events {}
    layoutInv_start

/-- A surface uploaded as 5 and drawn into, the shader keeping what it loads. -/
def drawIntoUploaded : List (LayoutEvent Nat) :=
  [.create 0, .upload 0 5,
    .perPass 0 none [] (some (fun seen => seen (.surface 0), { layer := fun _ _ => none }))]

/-- The draw's barrier says UNDEFINED over sampleable contents, which are lost, and the
surface ends as a colour attachment with a field that says sampleable. -/
theorem draw_drops_uploaded_surface :
    ¬AllSteps (layoutStep {}) (LayoutKept {}) {} drawIntoUploaded ∧
      (((drawIntoUploaded.take 2).foldl (layoutStep {}) {}).images (.surface 0)).contents =
        some 5 ∧
      ((drawIntoUploaded.foldl (layoutStep {}) {}).images (.surface 0)).contents = none ∧
      (drawIntoUploaded.foldl (layoutStep {}) {}).host.layout (.surface 0) = .shaderReadOnly ∧
      ((drawIntoUploaded.foldl (layoutStep {}) {}).images (.surface 0)).layout =
        .colorAttachment := by
  refine ⟨?_, by decide, by decide, by decide, by decide⟩
  rintro ⟨_, _, hdraw, _⟩
  exact absurd (hdraw.2.2 0 (by decide)) (by decide)

end Lagfx.SurfaceLayout
