import Lagfx.Lib.GpuQueue

/-! Lifetimes on the graphics queue: each path that submits, waits and frees, as the
calls it makes on the queue, and the frame submission that outlives the call that made
it. What vkQueueSubmit, vkWaitForFences and vkGetFenceStatus answer is given. -/
namespace Lagfx
open Runs GpuQueue

inductive VkResult where
  | success | timeout | notReady | deviceLost | error
deriving DecidableEq, Repr

/- Transient objects carry the number of the call that made them. A staging slot keeps
   its objects for many frames, and there is one frame fence. -/
inductive GpuObject where
  | cmdbuf (n : Nat)
  | fence (n : Nat)
  | buffer (n k : Nat)
  | memory (n k : Nat)
  | descriptorSet (n : Nat)
  | frameFence
  | slotFence (h : Nat)
  | slotBuffer (h : Nat)
  | slotMemory (h : Nat)
deriving DecidableEq, Repr

def submitCalls (r : VkResult) (fence : GpuObject) (uses : List GpuObject) : List (Call GpuObject) :=
  match r with
  | .success => [.submit fence uses]
  | .deviceLost => [.idle]
  | .timeout | .notReady | .error => []

/-- A wait on a fence, or a query of its status. -/
def waitCalls (r : VkResult) (fence : GpuObject) : List (Call GpuObject) :=
  match r with
  | .success => [.retire fence]
  | .deviceLost => [.idle]
  | .timeout | .notReady | .error => []

def releases (os : List GpuObject) : List (Call GpuObject) := os.map .release

/- What one submit-and-wait meets: whether everything up to vkQueueSubmit succeeds, and
   the answers of the submit and of the wait. -/
structure Outcome where
  prepared : Bool := true
  submit : VkResult := .success
  wait : VkResult := .success
deriving DecidableEq, Repr

def Outcome.ok (o : Outcome) : Bool :=
  o.prepared && decide (o.submit = .success) && decide (o.wait = .success)

/-- The wait is made for a submission that was accepted; nothing depends on its answer. -/
def submitAndWait (o : Outcome) (fence : GpuObject) (uses : List GpuObject) :
    List (Call GpuObject) :=
  submitCalls o.submit fence uses ++ if o.submit = .success then waitCalls o.wait fence else []

/- The copy most paths have: record, submit with a fresh fence, wait, and free the same
   objects on every exit. Without a fence there is none to destroy. -/
def oneShot (o : Outcome) (n : Nat) (uses frees : List GpuObject) : List (Call GpuObject) :=
  if o.prepared then submitAndWait o (.fence n) (.cmdbuf n :: uses) ++ releases frees
  else releases (frees.erase (.fence n))

def staging (n : Nat) : List GpuObject := [.memory n 0, .buffer n 0]

def iosurfaceUploadPixels (o : Outcome) (n : Nat) : List (Call GpuObject) :=
  oneShot o n (staging n) ([.fence n, .cmdbuf n] ++ staging n)

/-- The clear of a new IOSurface. -/
def iosurfaceCreateClear (o : Outcome) (n : Nat) : List (Call GpuObject) :=
  oneShot o n [] [.fence n, .cmdbuf n]

def displayPresentSurface (o : Outcome) (wantReadback : Bool) (n : Nat) : List (Call GpuObject) :=
  let buffers := if wantReadback then staging n else []
  oneShot o n buffers ([.fence n, .cmdbuf n] ++ buffers)

def renderTargetReadback (o : Outcome) (n : Nat) : List (Call GpuObject) :=
  oneShot o n (staging n) ([.fence n, .cmdbuf n] ++ staging n)

def compositeOver (o : Outcome) (n : Nat) : List (Call GpuObject) :=
  oneShot o n [] [.fence n, .cmdbuf n]

/-- Never frees its command buffer. -/
def clearImage (o : Outcome) (n : Nat) : List (Call GpuObject) :=
  oneShot o n [] [.fence n]

def cursorUploadGlyph (o : Outcome) (n : Nat) : List (Call GpuObject) :=
  oneShot o n [] [.fence n, .cmdbuf n]

def cursorOverlay (o : Outcome) (n : Nat) : List (Call GpuObject) :=
  oneShot o n [] [.fence n, .cmdbuf n]

def clearColor (o : Outcome) (n : Nat) : List (Call GpuObject) :=
  oneShot o n [] [.fence n, .cmdbuf n]

/-- The draw waits for the device to be idle when its fence wait fails. -/
def drawRecordAndSubmitBound (o : Outcome) (n : Nat) (uses : List GpuObject) :
    List (Call GpuObject) :=
  if o.prepared then
    submitCalls o.submit (.fence n) (.cmdbuf n :: uses) ++
      (if o.submit = .success then
        waitCalls o.wait (.fence n) ++ if o.wait = .success then [] else [.idle]
      else []) ++
      releases [.fence n, .cmdbuf n]
  else releases [.cmdbuf n]

/-- The caller frees the transient buffers, the set and the vertex buffer of the draw. -/
def emitPendingDraw (o : Outcome) (descSet : Bool) (ntr : Nat) (vbuf : Bool) (n : Nat) :
    List (Call GpuObject) :=
  let transients := (List.range ntr).flatMap fun k => [GpuObject.buffer n k, .memory n k]
  let set := if descSet then [GpuObject.descriptorSet n] else []
  let vertex := if vbuf then [GpuObject.buffer n ntr, .memory n ntr] else []
  drawRecordAndSubmitBound o n (set ++ transients ++ vertex) ++ releases (transients ++ set ++ vertex)

structure StagingSlot where
  handle : Nat := 0
  inFlight : Bool := false
deriving DecidableEq, Repr

/-- The display's two staging slots, all built for one size. -/
structure StagingRing where
  size : Nat
  slotIdx : Nat
  slots : List StagingSlot
deriving DecidableEq, Repr

/-- The slot the next frame takes. -/
def StagingRing.slot (ring : StagingRing) : StagingSlot := ring.slots.getD ring.slotIdx {}

structure GpuWorld where
  next : Nat := 0
  pending : List (Submission GpuObject) := []
  frameInProgress : Bool := false
  frameCmdbuf : Option Nat := none
  frameFence : Bool := false
  pendingFenceValid : Bool := false
  pendingCmdbuf : Option Nat := none
  glyphValid : Bool := false
  ring : Option StagingRing := none

/-- A call with a fresh number for what it creates. -/
def GpuWorld.once (w : GpuWorld) (f : Nat → List (Call GpuObject)) :
    List (Call GpuObject) × GpuWorld :=
  (f w.next, { w with next := w.next+1 })

def andThen (r : List (Call GpuObject) × GpuWorld)
    (f : GpuWorld → List (Call GpuObject) × GpuWorld) : List (Call GpuObject) × GpuWorld :=
  (r.1 ++ (f r.2).1, (f r.2).2)

/-- Upload the glyph once, for a cursor that is shown. -/
def ensureGlyph (w : GpuWorld) (shown : Bool) (glyph : Outcome) : List (Call GpuObject) × GpuWorld :=
  if shown = true ∧ w.glyphValid = false then
    let r := w.once (cursorUploadGlyph glyph)
    (r.1, { r.2 with glyphValid := glyph.ok })
  else ([], w)

/-- The clear goes on when the glyph cannot be uploaded; the writeback follows a clear
that succeeded. -/
def displaySubmitClearColor (w : GpuWorld) (shown : Bool) (glyph o : Outcome) (dma : Option Outcome) :
    List (Call GpuObject) × GpuWorld :=
  andThen (ensureGlyph w shown glyph) fun w =>
    andThen (w.once (clearColor o)) fun w =>
      match dma with
      | some d => if o.ok then w.once (renderTargetReadback d) else ([], w)
      | none => ([], w)

def displayOverlayCursor (w : GpuWorld) (shown : Bool) (glyph o : Outcome) :
    List (Call GpuObject) × GpuWorld :=
  andThen (ensureGlyph w shown glyph) fun w =>
    if shown = true ∧ w.glyphValid = true then w.once (cursorOverlay o) else ([], w)

def slotObjects (h : Nat) : List GpuObject := [.slotFence h, .slotBuffer h, .slotMemory h]

/-- A slot in flight is waited for, whatever the answer, and destroyed. -/
def slotTeardown (wait : VkResult) (s : StagingSlot) : List (Call GpuObject) :=
  (if s.inFlight then waitCalls wait (.slotFence s.handle) else []) ++ releases (slotObjects s.handle)

def ringTeardown (waits : Nat → VkResult) (slots : List StagingSlot) : List (Call GpuObject) :=
  slots.zipIdx.flatMap fun s => slotTeardown (waits s.2) s.1

/-- Both slots anew for this size, unless the ring has it; a failure leaves no ring. -/
def displayStagingRingEnsure (w : GpuWorld) (bytes : Nat) (waits : Nat → VkResult) (initOk : Bool) :
    List (Call GpuObject) × GpuWorld :=
  if (w.ring.map StagingRing.size) = some bytes then ([], w)
  else
    let teardown := ringTeardown waits ((w.ring.map StagingRing.slots).getD [])
    let fresh := slotObjects w.next ++ slotObjects (w.next+1)
    if initOk then (teardown, { w with
      next := w.next+2
      ring := some ⟨bytes, 0, [⟨w.next, false⟩, ⟨w.next+1, false⟩]⟩ })
    else (teardown ++ releases fresh, { w with next := w.next+2, ring := none })

/-- The copy into the next slot. A slot still in flight is waited for first, and its
fence is reset only after a successful wait. -/
def submitSlot (w : GpuWorld) (prior : VkResult) (o : Outcome) : List (Call GpuObject) × GpuWorld :=
  match w.ring with
  | none => ([], w)
  | some ring =>
    let slot := ring.slot
    let ring' := { ring with slotIdx := (ring.slotIdx+1)%2 }
    let waited := if slot.inFlight then waitCalls prior (.slotFence slot.handle) else []
    if slot.inFlight = true ∧ prior ≠ .success then (waited, { w with ring := some ring' })
    else
      let n := w.next
      let submitted := if o.prepared then submitAndWait o (.slotFence slot.handle)
        [.cmdbuf n, .slotBuffer slot.handle, .slotMemory slot.handle] else []
      let inFlight := o.prepared && decide (o.submit = .success) && decide (o.wait ≠ .success)
      (waited ++ releases [.slotFence slot.handle] ++ (submitted ++ releases [.cmdbuf n]),
        { w with
          next := n+1
          ring := some { ring' with slots := ring.slots.set ring.slotIdx ⟨slot.handle, inFlight⟩ } })

/- Where a rendered frame goes: nowhere, read back for the shell, or copied through the
   staging ring into the scanout buffer. -/
inductive FrameTarget where
  | skip
  | fallback (o : Outcome)
  | scanout (bytes : Nat) (waits : Nat → VkResult) (initOk : Bool) (prior : VkResult) (o : Outcome)

def submitToTarget (w : GpuWorld) : FrameTarget → List (Call GpuObject) × GpuWorld
  | .skip => ([], w)
  | .fallback o => w.once (renderTargetReadback o)
  | .scanout bytes waits initOk prior o =>
    andThen (displayStagingRingEnsure w bytes waits initOk) fun w => submitSlot w prior o

def displaySubmitRenderedFrame (w : GpuWorld) (shown : Bool) (glyph overlay : Outcome)
    (target : FrameTarget) : List (Call GpuObject) × GpuWorld :=
  andThen (displayOverlayCursor w shown glyph overlay) fun w => submitToTarget w target

/-- lagfx_vk_drain_pending; anything but not-ready frees. -/
def drainPending (w : GpuWorld) (status : VkResult) : List (Call GpuObject) × GpuWorld :=
  if w.pendingFenceValid = false ∨ status = .notReady then ([], w)
  else
    (waitCalls status .frameFence ++
        releases (w.pendingCmdbuf.toList.map GpuObject.cmdbuf ++ [.frameFence]),
      { w with pendingCmdbuf := none, pendingFenceValid := false })

def drained (w : GpuWorld) (status : VkResult) : Bool :=
  !w.pendingFenceValid || decide (status ≠ .notReady)

def beginFrame (w : GpuWorld) (status : VkResult) (allocOk beginOk : Bool) :
    List (Call GpuObject) × GpuWorld :=
  if w.frameInProgress = true then ([], w)
  else
    andThen (drainPending w status) fun w' =>
      if drained w status = false ∨ allocOk = false then ([], w')
      else if beginOk = false then
        (releases [.cmdbuf w'.next], { w' with next := w'.next+1, frameCmdbuf := none })
      else ([], { w' with
        next := w'.next+1
        frameCmdbuf := some w'.next
        frameInProgress := true })

/-- Give the frame's command buffer up. -/
def dropFrame (w : GpuWorld) : List (Call GpuObject) × GpuWorld :=
  (releases (w.frameCmdbuf.toList.map GpuObject.cmdbuf),
    { w with frameCmdbuf := none, frameInProgress := false })

/-- The frame fence is made once and reset before each use after. -/
def readyFrameFence (w : GpuWorld) : List (Call GpuObject) × GpuWorld :=
  (if w.frameFence then releases [.frameFence] else [], { w with frameFence := true })

/-- The one submission nobody waits for. -/
def submitFrame (w : GpuWorld) (submit : VkResult) : List (Call GpuObject) × GpuWorld :=
  if submit ≠ .success then andThen (submitCalls submit .frameFence [], w) dropFrame
  else
    (submitCalls submit .frameFence (w.frameCmdbuf.toList.map GpuObject.cmdbuf), { w with
      pendingFenceValid := true
      pendingCmdbuf := w.frameCmdbuf
      frameCmdbuf := none
      frameInProgress := false })

def endFrame (w : GpuWorld) (status : VkResult) (endOk fenceOk : Bool) (submit : VkResult) :
    List (Call GpuObject) × GpuWorld :=
  if w.frameInProgress = false then ([], w)
  else
    andThen (if w.pendingFenceValid then drainPending w status else ([], w)) fun w =>
      if endOk = false ∨ (w.frameFence = false ∧ fenceOk = false) then dropFrame w
      else andThen (readyFrameFence w) fun w => submitFrame w submit

inductive GpuEvent where
  | draw (o : Outcome) (descSet : Bool) (ntr : Nat) (vbuf : Bool)
  | iosurfaceUpload (o : Outcome)
  | iosurfaceCreate (o : Outcome)
  | presentSurface (o : Outcome) (wantReadback : Bool)
  | readback (o : Outcome)
  | composite (o : Outcome)
  | clearImage (o : Outcome)
  | overlayCursor (shown : Bool) (glyph o : Outcome)
  | submitClearColor (shown : Bool) (glyph o : Outcome) (dma : Option Outcome)
  | submitRenderedFrame (shown : Bool) (glyph overlay : Outcome) (target : FrameTarget)
  | beginFrame (status : VkResult) (allocOk beginOk : Bool)
  | endFrame (status : VkResult) (endOk fenceOk : Bool) (submit : VkResult)
  | drainPending (status : VkResult)

/-- The calls of one event, and the records it leaves. -/
def gpuPerform (w : GpuWorld) : GpuEvent → List (Call GpuObject) × GpuWorld
  | .draw o descSet ntr vbuf => w.once (emitPendingDraw o descSet ntr vbuf)
  | .iosurfaceUpload o => w.once (iosurfaceUploadPixels o)
  | .iosurfaceCreate o => w.once (iosurfaceCreateClear o)
  | .presentSurface o wantReadback => w.once (displayPresentSurface o wantReadback)
  | .readback o => w.once (renderTargetReadback o)
  | .composite o => w.once (compositeOver o)
  | .clearImage o => w.once (clearImage o)
  | .overlayCursor shown glyph o => displayOverlayCursor w shown glyph o
  | .submitClearColor shown glyph o dma => displaySubmitClearColor w shown glyph o dma
  | .submitRenderedFrame shown glyph overlay target => displaySubmitRenderedFrame w shown glyph overlay target
  | .beginFrame status allocOk beginOk => beginFrame w status allocOk beginOk
  | .endFrame status endOk fenceOk submit => endFrame w status endOk fenceOk submit
  | .drainPending status => drainPending w status

def gpuStep (w : GpuWorld) (e : GpuEvent) : GpuWorld :=
  { (gpuPerform w e).2 with pending := run w.pending (gpuPerform w e).1 }

/-- No call of the event releases what a pending submission uses. -/
def GpuSafe (w : GpuWorld) (e : GpuEvent) : Prop := SafeRun w.pending (gpuPerform w e).1

instance (w : GpuWorld) (e : GpuEvent) : Decidable (GpuSafe w e) :=
  inferInstanceAs (Decidable (SafeRun _ _))

/-- An accepted submission is seen to have ended before the path goes on to free. -/
def Outcome.Retires (o : Outcome) : Prop :=
  o.prepared = true → o.submit = .success → o.wait = .success ∨ o.wait = .deviceLost

def GlyphRetires (w : GpuWorld) (shown : Bool) (glyph : Outcome) : Prop :=
  shown = true → w.glyphValid = false → glyph.Retires

def OverlayRetires (w : GpuWorld) (shown : Bool) (glyph o : Outcome) : Prop :=
  GlyphRetires w shown glyph ∧
    (shown = true → w.glyphValid = true ∨ glyph.ok = true → o.Retires)

/-- The slot the next frame takes is still marked in flight. -/
def GpuWorld.slotBusy (w : GpuWorld) (bytes : Nat) : Bool :=
  match w.ring with
  | none => false
  | some ring => decide (ring.size = bytes) && ring.slot.inFlight

def TargetRetires (w : GpuWorld) : FrameTarget → Prop
  | .skip => True
  | .fallback o => o.Retires
  | .scanout bytes _ initOk prior o =>
    (w.ring.map StagingRing.size) = some bytes ∨ initOk = true →
      (w.slotBusy bytes = true → prior = .success) → o.Retires

/-- The status query answers, or the frame's submission is over anyway. -/
def DrainRetires (w : GpuWorld) (status : VkResult) : Prop :=
  w.pendingFenceValid = true →
    status = .success ∨ status = .notReady ∨ status = .deviceLost ∨
      ∀ s ∈ w.pending, s.fence ≠ .frameFence

/- Every wait that precedes a free ends the submission it waits for, except in the draw,
   which falls back to waiting for the device, and in end_frame, which never waits. -/
def GpuCond (w : GpuWorld) : GpuEvent → Prop
  | .draw _ _ _ _ => True
  | .iosurfaceUpload o => o.Retires
  | .iosurfaceCreate o => o.Retires
  | .presentSurface o _ => o.Retires
  | .readback o => o.Retires
  | .composite o => o.Retires
  | .clearImage o => o.Retires
  | .overlayCursor shown glyph o => OverlayRetires w shown glyph o
  | .submitClearColor shown glyph o dma =>
    GlyphRetires w shown glyph ∧ o.Retires ∧ ∀ d ∈ dma, o.ok = true → d.Retires
  | .submitRenderedFrame shown glyph overlay target =>
    OverlayRetires w shown glyph overlay ∧ TargetRetires w target
  | .beginFrame status _ _ => w.frameInProgress = false → DrainRetires w status
  | .endFrame _ _ _ _ => True
  | .drainPending status => DrainRetires w status

/- Between events at most the frame's own submission is pending, with a command buffer
   made before. -/

def frameSubmission (k : Nat) : Submission GpuObject := ⟨.frameFence, [.frameFence, .cmdbuf k]⟩

def Quiet (n : Nat) (p : List (Submission GpuObject)) : Prop :=
  p = [] ∨ ∃ k < n, p = [frameSubmission k]

/-- An object that is no part of a frame submitted before `n`. -/
def Fresh (n : Nat) (o : GpuObject) : Prop := o ≠ .frameFence ∧ ∀ k < n, o ≠ .cmdbuf k

theorem Quiet.mono {n m : Nat} {p : List (Submission GpuObject)} (h : Quiet n p) (hnm : n ≤ m) :
    Quiet m p := by
  obtain rfl | ⟨k, hk, rfl⟩ := h
  · exact Or.inl rfl
  · exact Or.inr ⟨k, by omega, rfl⟩

theorem Fresh.not_used {n : Nat} {o : GpuObject} {p : List (Submission GpuObject)}
    (ho : Fresh n o) (hp : Quiet n p) : ∀ s ∈ p, o ∉ s.uses := by
  intro s hs
  obtain rfl | ⟨k, hk, rfl⟩ := hp
  · cases hs
  · obtain rfl := List.mem_singleton.mp hs
    simp [frameSubmission, ho.1, ho.2 k hk]

theorem Fresh.not_fence {n : Nat} {o : GpuObject} {p : List (Submission GpuObject)}
    (ho : Fresh n o) (hp : Quiet n p) : ∀ s ∈ p, s.fence ≠ o := by
  intro s hs
  obtain rfl | ⟨k, hk, rfl⟩ := hp
  · cases hs
  · obtain rfl := List.mem_singleton.mp hs
    exact Ne.symm ho.1

theorem fresh_cmdbuf (n : Nat) : Fresh n (.cmdbuf n) :=
  ⟨by simp, fun k hk h => by cases h; omega⟩

/- Calls that are safe in a quiet queue exactly under `ok`, and then leave the queue as
   it was or empty. -/
def Clean (n : Nat) (calls : List (Call GpuObject)) (ok : Prop) : Prop :=
  ∀ p, Quiet n p → (SafeRun p calls ↔ ok) ∧ (ok → run p calls = p ∨ run p calls = [])

theorem clean_nil (n : Nat) : Clean n [] True :=
  fun _ _ => ⟨Iff.rfl, fun _ => Or.inl rfl⟩

theorem Clean.congr {n : Nat} {calls : List (Call GpuObject)} {a b : Prop} (h : Clean n calls a)
    (hab : a ↔ b) : Clean n calls b := by
  rwa [← propext hab]

theorem Clean.append {n m : Nat} {a b : List (Call GpuObject)} {A B : Prop} (ha : Clean n a A)
    (hb : Clean m b B) (hnm : n ≤ m) : Clean n (a ++ b) (A ∧ B) := by
  intro p hp
  obtain ⟨hsa, hra⟩ := ha p hp
  rw [safeRun_append, run_append, hsa]
  have hquiet : A → Quiet m (run p a) := by
    intro hA
    obtain h | h := hra hA
    · rw [h]
      exact hp.mono hnm
    · rw [h]
      exact Or.inl rfl
  refine ⟨and_congr_right fun hA => (hb _ (hquiet hA)).1, ?_⟩
  rintro ⟨hA, hB⟩
  obtain h | h := (hb _ (hquiet hA)).2 hB
  · rw [h]
    exact hra hA
  · exact Or.inr h

theorem clean_releases {n : Nat} {os : List GpuObject} (h : ∀ o ∈ os, Fresh n o) :
    Clean n (releases os) True := by
  intro p hp
  refine ⟨iff_true_intro ?_, fun _ => Or.inl (run_releases os p)⟩
  exact (safeRun_releases os p).mpr fun o ho => (h o ho).not_used hp

/-- Waiting for a fence nothing pending has changes nothing. -/
theorem clean_wait {n : Nat} {f : GpuObject} (hf : Fresh n f) (r : VkResult) :
    Clean n (waitCalls r f) True := by
  intro p hp
  have hkeep : step p (.retire f) = p :=
    List.filter_eq_self.mpr fun s hs => by simpa using hf.not_fence hp s hs
  cases r with
  | success => exact ⟨iff_true_intro ⟨trivial, trivial⟩, fun _ => Or.inl hkeep⟩
  | deviceLost => exact ⟨iff_true_intro ⟨trivial, trivial⟩, fun _ => Or.inr rfl⟩
  | timeout => exact clean_nil n p hp
  | notReady => exact clean_nil n p hp
  | error => exact clean_nil n p hp

/-- Submit, wait, free: safe exactly when the wait ends what the submit began. -/
theorem clean_submitAndWait {n : Nat} {f : GpuObject} {uses frees : List GpuObject} (o : Outcome)
    (hf : Fresh n f) (hfresh : ∀ r ∈ frees, Fresh n r) (hused : ∃ r ∈ frees, r ∈ f :: uses) :
    Clean n (submitAndWait o f uses ++ releases frees)
      (o.submit = .success → o.wait = .success ∨ o.wait = .deviceLost) := by
  intro p hp
  have hfree := clean_releases hfresh
  obtain ⟨r, hr, hru⟩ := hused
  rw [safeRun_append, run_append]
  -- what is left pending decides whether the frees are safe
  have hkeep : ∀ calls : List (Call GpuObject), SafeRun p calls →
      run p calls = p ∨ run p calls = [] →
      (SafeRun p calls ∧ SafeRun (run p calls) (releases frees)) ∧
        (run (run p calls) (releases frees) = p ∨ run (run p calls) (releases frees) = []) := by
    intro calls hs hrun
    have hq : Quiet n (run p calls) := by
      obtain h | h := hrun
      · rw [h]; exact hp
      · rw [h]; exact Or.inl rfl
    refine ⟨⟨hs, (hfree _ hq).1.mpr trivial⟩, ?_⟩
    rw [show run (run p calls) (releases frees) = run p calls from run_releases frees _]
    exact hrun
  have hbad : ∀ q : List (Submission GpuObject), (⟨f, f :: uses⟩ : Submission GpuObject) ∈ q →
      ¬ SafeRun q (releases frees) := by
    intro q hq hs
    exact (safeRun_releases frees q).mp hs r hr _ hq hru
  rw [submitAndWait]
  cases hsub : o.submit with
  | success =>
    simp only [submitCalls, if_true, forall_const]
    cases hw : o.wait with
    | success =>
      have h := hkeep [.submit f uses, .retire f] ⟨trivial, trivial, trivial⟩
        (Or.inl (run_submit_retire uses (hf.not_fence hp)))
      exact ⟨iff_of_true h.1 (Or.inl rfl), fun _ => h.2⟩
    | deviceLost =>
      have h := hkeep [.submit f uses, .idle] ⟨trivial, trivial, trivial⟩ (Or.inr rfl)
      exact ⟨iff_of_true h.1 (Or.inr rfl), fun _ => h.2⟩
    | timeout => exact ⟨iff_of_false (fun h => hbad _ List.mem_cons_self h.2) (by simp), by simp⟩
    | notReady => exact ⟨iff_of_false (fun h => hbad _ List.mem_cons_self h.2) (by simp), by simp⟩
    | error => exact ⟨iff_of_false (fun h => hbad _ List.mem_cons_self h.2) (by simp), by simp⟩
  | deviceLost =>
    have h := hkeep [.idle] ⟨trivial, trivial⟩ (Or.inr rfl)
    exact ⟨iff_of_true h.1 nofun, fun _ => h.2⟩
  | timeout =>
    have h := hkeep [] trivial (Or.inl rfl)
    exact ⟨iff_of_true h.1 nofun, fun _ => h.2⟩
  | notReady =>
    have h := hkeep [] trivial (Or.inl rfl)
    exact ⟨iff_of_true h.1 nofun, fun _ => h.2⟩
  | error =>
    have h := hkeep [] trivial (Or.inl rfl)
    exact ⟨iff_of_true h.1 nofun, fun _ => h.2⟩

theorem clean_oneShot {n : Nat} (o : Outcome) {uses frees : List GpuObject}
    (hfresh : ∀ r ∈ frees, Fresh n r) (hfence : .fence n ∈ frees) :
    Clean n (oneShot o n uses frees) o.Retires := by
  rw [oneShot]
  cases hp : o.prepared with
  | true =>
    refine (clean_submitAndWait o (hfresh _ hfence) hfresh ⟨_, hfence, List.mem_cons_self⟩).congr ?_
    simp [Outcome.Retires, hp]
  | false =>
    have hrest : ∀ r ∈ frees.erase (.fence n), Fresh n r :=
      fun r hr => hfresh r (List.mem_of_mem_erase hr)
    exact (clean_releases hrest).congr (by simp [Outcome.Retires, hp])

theorem fresh_fence (n m : Nat) : Fresh n (.fence m) := ⟨by simp, by simp⟩

theorem fresh_buffer (n m k : Nat) : Fresh n (.buffer m k) := ⟨by simp, by simp⟩

theorem fresh_memory (n m k : Nat) : Fresh n (.memory m k) := ⟨by simp, by simp⟩

theorem fresh_staging (n : Nat) : ∀ o ∈ staging n, Fresh n o := by
  simp [staging, fresh_buffer, fresh_memory]

theorem fresh_slotObjects (n h : Nat) : ∀ o ∈ slotObjects h, Fresh n o := by
  simp [slotObjects, Fresh]

theorem fresh_pair (n : Nat) : ∀ o ∈ [GpuObject.fence n, .cmdbuf n], Fresh n o := by
  simp [fresh_fence, fresh_cmdbuf]

theorem fresh_append {n : Nat} {a b : List GpuObject} (ha : ∀ o ∈ a, Fresh n o)
    (hb : ∀ o ∈ b, Fresh n o) : ∀ o ∈ a ++ b, Fresh n o := by
  intro o ho
  obtain ho | ho := List.mem_append.mp ho
  · exact ha o ho
  · exact hb o ho

/-- The paths that free a fence and a command buffer and nothing else. -/
theorem clean_pair (o : Outcome) (n : Nat) : Clean n (oneShot o n [] [.fence n, .cmdbuf n]) o.Retires :=
  clean_oneShot o (fresh_pair n) List.mem_cons_self

/-- The paths with a staging buffer. -/
theorem clean_staging (o : Outcome) (n : Nat) :
    Clean n (oneShot o n (staging n) ([.fence n, .cmdbuf n] ++ staging n)) o.Retires :=
  clean_oneShot o (fresh_append (fresh_pair n) (fresh_staging n)) List.mem_cons_self

theorem clean_present (o : Outcome) (wantReadback : Bool) (n : Nat) :
    Clean n (displayPresentSurface o wantReadback n) o.Retires := by
  cases wantReadback with
  | true => exact clean_staging o n
  | false => exact clean_pair o n

theorem clean_clearImage (o : Outcome) (n : Nat) : Clean n (clearImage o n) o.Retires :=
  clean_oneShot o (by simp [fresh_fence]) List.mem_cons_self

/-- A draw never frees early: whatever the wait answers, the device is idle after it. -/
theorem clean_draw (o : Outcome) (n : Nat) (uses : List GpuObject) :
    Clean n (drawRecordAndSubmitBound o n uses) True := by
  rw [drawRecordAndSubmitBound]
  cases o.prepared with
  | false => exact clean_releases (by simp [fresh_cmdbuf])
  | true =>
    refine (Clean.append (A := True) ?_ (clean_releases (fresh_pair n)) le_rfl).congr and_self_iff
    intro p hp
    cases o.submit with
    | success =>
      cases o.wait with
      | success =>
        exact ⟨iff_true_intro ⟨trivial, trivial, trivial⟩,
          fun _ => Or.inl (run_submit_retire _ ((fresh_fence n n).not_fence hp))⟩
      | deviceLost => exact ⟨iff_true_intro ⟨trivial, trivial, trivial, trivial⟩, fun _ => Or.inr rfl⟩
      | timeout => exact ⟨iff_true_intro ⟨trivial, trivial, trivial⟩, fun _ => Or.inr rfl⟩
      | notReady => exact ⟨iff_true_intro ⟨trivial, trivial, trivial⟩, fun _ => Or.inr rfl⟩
      | error => exact ⟨iff_true_intro ⟨trivial, trivial, trivial⟩, fun _ => Or.inr rfl⟩
    | deviceLost => exact ⟨iff_true_intro ⟨trivial, trivial⟩, fun _ => Or.inr rfl⟩
    | timeout => exact clean_nil n p hp
    | notReady => exact clean_nil n p hp
    | error => exact clean_nil n p hp

theorem clean_emitPendingDraw (o : Outcome) (descSet : Bool) (ntr : Nat) (vbuf : Bool) (n : Nat) :
    Clean n (emitPendingDraw o descSet ntr vbuf n) True := by
  rw [emitPendingDraw]
  refine ((clean_draw o n _).append (clean_releases ?_) le_rfl).congr and_self_iff
  have hbuffer (k : Nat) : ∀ r ∈ [GpuObject.buffer n k, .memory n k], Fresh n r := by
    simp [fresh_buffer, fresh_memory]
  refine fresh_append (fresh_append ?_ ?_) ?_
  · intro r hr
    obtain ⟨k, -, hk⟩ := List.mem_flatMap.mp hr
    exact hbuffer k r hk
  · cases descSet <;> simp [Fresh]
  · cases vbuf with
    | true => exact hbuffer ntr
    | false => simp

/- An event, or a part of one, that leaves the frame's records alone. -/
structure Part (w : GpuWorld) (r : List (Call GpuObject) × GpuWorld) (ok : Prop) : Prop where
  clean : Clean w.next r.1 ok
  next : w.next ≤ r.2.next
  frameInProgress : r.2.frameInProgress = w.frameInProgress
  pendingFenceValid : r.2.pendingFenceValid = w.pendingFenceValid
  pendingCmdbuf : r.2.pendingCmdbuf = w.pendingCmdbuf
  frameCmdbuf : r.2.frameCmdbuf = w.frameCmdbuf

theorem Part.congr {w : GpuWorld} {r : List (Call GpuObject) × GpuWorld} {a b : Prop}
    (h : Part w r a) (hab : a ↔ b) : Part w r b := by
  rwa [← propext hab]

theorem Part.andThen {w : GpuWorld} {r : List (Call GpuObject) × GpuWorld} {A B : Prop}
    {f : GpuWorld → List (Call GpuObject) × GpuWorld} (ha : Part w r A) (hb : Part r.2 (f r.2) B) :
    Part w (andThen r f) (A ∧ B) where
  clean := ha.clean.append hb.clean ha.next
  next := ha.next.trans hb.next
  frameInProgress := hb.frameInProgress.trans ha.frameInProgress
  pendingFenceValid := hb.pendingFenceValid.trans ha.pendingFenceValid
  pendingCmdbuf := hb.pendingCmdbuf.trans ha.pendingCmdbuf
  frameCmdbuf := hb.frameCmdbuf.trans ha.frameCmdbuf

theorem part_nothing (w : GpuWorld) : Part w ([], w) True :=
  ⟨clean_nil _, le_rfl, rfl, rfl, rfl, rfl⟩

theorem part_once {w : GpuWorld} {f : Nat → List (Call GpuObject)} {ok : Prop}
    (h : Clean w.next (f w.next) ok) : Part w (w.once f) ok :=
  ⟨h, Nat.le_succ _, rfl, rfl, rfl, rfl⟩

theorem part_ensureGlyph (w : GpuWorld) (shown : Bool) (glyph : Outcome) :
    Part w (ensureGlyph w shown glyph) (GlyphRetires w shown glyph) := by
  rw [ensureGlyph]
  split_ifs with h
  · have hp : Part w (w.once (cursorUploadGlyph glyph)) glyph.Retires := part_once (clean_pair glyph _)
    exact Part.congr ⟨hp.clean, hp.next, rfl, rfl, rfl, rfl⟩ (by simp [GlyphRetires, h.1, h.2])
  · refine (part_nothing w).congr (iff_of_true trivial fun hs hg => absurd ⟨hs, hg⟩ h)

/-- Whether there is a glyph to draw afterwards. -/
theorem ensureGlyph_valid (w : GpuWorld) (shown : Bool) (glyph : Outcome) :
    shown = true ∧ (ensureGlyph w shown glyph).2.glyphValid = true ↔
      shown = true ∧ (w.glyphValid = true ∨ glyph.ok = true) := by
  refine and_congr_right fun hs => ?_
  rw [ensureGlyph]
  cases hg : w.glyphValid with
  | true => simp [hg]
  | false => simp [hs]

theorem part_overlayCursor (w : GpuWorld) (shown : Bool) (glyph o : Outcome) :
    Part w (displayOverlayCursor w shown glyph o) (OverlayRetires w shown glyph o) := by
  refine (part_ensureGlyph w shown glyph).andThen ?_
  split_ifs with h
  · have hg := (ensureGlyph_valid w shown glyph).mp h
    exact (part_once (clean_pair o _)).congr ⟨fun ho _ _ => ho, fun ho => ho hg.1 hg.2⟩
  · refine (part_nothing _).congr (iff_of_true trivial fun hs hg => ?_)
    exact absurd ((ensureGlyph_valid w shown glyph).mpr ⟨hs, hg⟩) h

theorem part_submitClearColor (w : GpuWorld) (shown : Bool) (glyph o : Outcome) (dma : Option Outcome) :
    Part w (displaySubmitClearColor w shown glyph o dma)
      (GlyphRetires w shown glyph ∧ o.Retires ∧ ∀ d ∈ dma, o.ok = true → d.Retires) := by
  refine (part_ensureGlyph w shown glyph).andThen ((part_once (clean_pair o _)).andThen ?_)
  cases dma with
  | none => exact (part_nothing _).congr (by simp)
  | some d =>
    cases ho : o.ok with
    | true => exact (part_once (clean_staging d _)).congr (by simp)
    | false => exact (part_nothing _).congr (by simp)

theorem clean_slotTeardown (n : Nat) (wait : VkResult) (s : StagingSlot) :
    Clean n (slotTeardown wait s) True := by
  rw [slotTeardown]
  have hfree : Clean n (releases (slotObjects s.handle)) True :=
    clean_releases (fresh_slotObjects n s.handle)
  refine (Clean.append (A := True) ?_ hfree le_rfl).congr and_self_iff
  cases s.inFlight with
  | true => exact clean_wait (fresh_slotObjects n s.handle _ List.mem_cons_self) wait
  | false => exact clean_nil n

theorem clean_ringTeardown (n : Nat) (waits : Nat → VkResult) (slots : List StagingSlot) :
    Clean n (ringTeardown waits slots) True := by
  rw [ringTeardown]
  generalize slots.zipIdx = indexed
  induction indexed with
  | nil => exact clean_nil n
  | cons s rest ih => exact ((clean_slotTeardown n _ _).append ih le_rfl).congr and_self_iff

theorem part_ringEnsure (w : GpuWorld) (bytes : Nat) (waits : Nat → VkResult) (initOk : Bool) :
    Part w (displayStagingRingEnsure w bytes waits initOk) True := by
  rw [displayStagingRingEnsure]
  split_ifs with hsize hinit
  · exact part_nothing w
  · exact ⟨clean_ringTeardown _ _ _, Nat.le_add_right _ 2, rfl, rfl, rfl, rfl⟩
  · have hfresh := fresh_append (fresh_slotObjects w.next w.next) (fresh_slotObjects w.next (w.next+1))
    exact ⟨((clean_ringTeardown _ _ _).append (clean_releases hfresh) le_rfl).congr and_self_iff,
      Nat.le_add_right _ 2, rfl, rfl, rfl, rfl⟩

theorem part_submitSlot (w : GpuWorld) (prior : VkResult) (o : Outcome) :
    Part w (submitSlot w prior o)
      (∀ ring ∈ w.ring, (ring.slot.inFlight = true → prior = .success) → o.Retires) := by
  rw [submitSlot]
  cases hring : w.ring with
  | none => exact (part_nothing w).congr (by simp)
  | some ring =>
    have hslot := fresh_slotObjects w.next ring.slot.handle
    have hwaited : Clean w.next
        (if ring.slot.inFlight then waitCalls prior (.slotFence ring.slot.handle) else []) True := by
      cases ring.slot.inFlight with
      | true => exact clean_wait (hslot _ List.mem_cons_self) prior
      | false => exact clean_nil _
    change Part w (if ring.slot.inFlight = true ∧ prior ≠ .success then _ else _) _
    by_cases hbusy : ring.slot.inFlight = true ∧ prior ≠ .success
    · rw [if_pos hbusy]
      refine Part.congr ⟨hwaited, le_rfl, rfl, rfl, rfl, rfl⟩ (iff_of_true trivial ?_)
      intro ring' hring' hprior
      obtain rfl := Option.some.inj hring'
      exact absurd (hprior hbusy.1) hbusy.2
    · rw [if_neg hbusy]
      have hreset : Clean w.next (releases [.slotFence ring.slot.handle]) True :=
        clean_releases (by simpa using hslot _ List.mem_cons_self)
      have hcopy : Clean w.next ((if o.prepared then submitAndWait o (.slotFence ring.slot.handle)
          [.cmdbuf w.next, .slotBuffer ring.slot.handle, .slotMemory ring.slot.handle] else []) ++
            releases [.cmdbuf w.next]) o.Retires := by
        have hcb : ∀ r ∈ [GpuObject.cmdbuf w.next], Fresh w.next r := by simp [fresh_cmdbuf]
        cases hp : o.prepared with
        | true =>
          refine (clean_submitAndWait o (hslot _ List.mem_cons_self) hcb ⟨_, List.mem_cons_self, ?_⟩).congr ?_
          · simp
          · simp [Outcome.Retires, hp]
        | false => exact (clean_releases hcb).congr (by simp [Outcome.Retires, hp])
      refine Part.congr (a := (True ∧ True) ∧ o.Retires)
        ⟨(hwaited.append hreset le_rfl).append hcopy le_rfl, Nat.le_succ _, rfl, rfl, rfl, rfl⟩ ?_
      have hgo : ring.slot.inFlight = true → prior = .success := by
        intro h
        by_contra hne
        exact hbusy ⟨h, hne⟩
      simp only [Option.mem_def, Option.some.injEq, forall_eq', true_and]
      exact ⟨fun h _ => h, fun h => h hgo⟩

theorem part_target (w : GpuWorld) (target : FrameTarget) :
    Part w (submitToTarget w target) (TargetRetires w target) := by
  cases target with
  | skip => exact part_nothing w
  | fallback o => exact part_once (clean_staging o _)
  | scanout bytes waits initOk prior o =>
    refine (Part.andThen (f := fun w => submitSlot w prior o) (part_ringEnsure w bytes waits initOk)
      (part_submitSlot _ prior o)).congr ?_
    rw [true_and, TargetRetires, displayStagingRingEnsure, GpuWorld.slotBusy]
    cases hring : w.ring with
    | none =>
      cases initOk with
      | true => simp [StagingRing.slot]
      | false => simp
    | some ring =>
      by_cases hsize : ring.size = bytes
      · simp [hsize, hring]
      · cases initOk with
        | true => simp [hsize, StagingRing.slot]
        | false => simp [hsize]

theorem part_submitRenderedFrame (w : GpuWorld) (shown : Bool) (glyph overlay : Outcome)
    (target : FrameTarget) : Part w (displaySubmitRenderedFrame w shown glyph overlay target)
      (OverlayRetires w shown glyph overlay ∧ TargetRetires w target) := by
  refine (part_overlayCursor w shown glyph overlay).andThen ((part_target _ target).congr ?_)
  -- the cursor leaves the ring alone
  have hring : (displayOverlayCursor w shown glyph overlay).2.ring = w.ring := by
    simp only [displayOverlayCursor, andThen, ensureGlyph, GpuWorld.once]
    split_ifs <;> rfl
  cases target with
  | skip => exact Iff.rfl
  | fallback o => exact Iff.rfl
  | scanout bytes waits initOk prior o => simp only [TargetRetires, GpuWorld.slotBusy, hring]

/-- What holds between events in a run that was safe so far. -/
structure GpuInv (w : GpuWorld) : Prop where
  quiet : w.pending = [] ∨ w.pendingFenceValid = true ∧
    ∃ k < w.next, w.pendingCmdbuf = some k ∧ w.pending = [frameSubmission k]
  progress : w.frameInProgress = true →
    w.pendingFenceValid = false ∧ ∃ k < w.next, w.frameCmdbuf = some k

theorem GpuInv.toQuiet {w : GpuWorld} (h : GpuInv w) : Quiet w.next w.pending := by
  obtain h | ⟨-, k, hk, -, h⟩ := h.quiet
  · exact Or.inl h
  · exact Or.inr ⟨k, hk, h⟩

/-- A part of an event on its own keeps the invariant. -/
theorem Part.inv {w : GpuWorld} {r : List (Call GpuObject) × GpuWorld} {ok : Prop} (hp : Part w r ok)
    (hw : GpuInv w) (hok : ok) : GpuInv { r.2 with pending := run w.pending r.1 } where
  quiet := by
    obtain h | h := (hp.clean _ hw.toQuiet).2 hok
    · rw [h]
      obtain hq | ⟨hv, k, hk, hc, hq⟩ := hw.quiet
      · exact Or.inl hq
      · exact Or.inr ⟨hp.pendingFenceValid.trans hv, k, hk.trans_le hp.next, hp.pendingCmdbuf.trans hc, hq⟩
    · exact Or.inl h
  progress := by
    intro hin
    obtain ⟨hv, k, hk, hc⟩ := hw.progress (hp.frameInProgress.symm.trans hin)
    exact ⟨hp.pendingFenceValid.trans hv, k, hk.trans_le hp.next, hp.frameCmdbuf.trans hc⟩

/-- Draining is safe exactly when the query ended the frame's submission. -/
theorem drainPending_safe_iff {w : GpuWorld} (hw : GpuInv w) (status : VkResult) :
    SafeRun w.pending (drainPending w status).1 ↔ DrainRetires w status := by
  rw [drainPending]
  split_ifs with hskip
  · refine iff_of_true trivial fun hv => ?_
    obtain h | h := hskip
    · rw [hv] at h
      cases h
    · exact Or.inr (Or.inl h)
  · rw [not_or, Bool.not_eq_false] at hskip
    obtain hq | ⟨hv, k, -, hc, hq⟩ := hw.quiet
    · have hall : DrainRetires w status := fun _ => by simp [hq]
      refine iff_of_true ?_ hall
      have hidle : run [] (waitCalls status .frameFence) = [] := by cases status <;> rfl
      rw [hq, safeRun_append, hidle]
      exact ⟨by cases status <;> simp [waitCalls, SafeRun, AllSteps, Safe],
        (safeRun_releases _ _).mpr (by simp)⟩
    · have hbad : ¬ SafeRun [frameSubmission k] (releases [.cmdbuf k, .frameFence]) := by
        intro h
        have hfree := (safeRun_releases _ _).mp h (.cmdbuf k) (by simp) (frameSubmission k) (by simp)
        exact hfree (by simp [frameSubmission])
      have hgood : SafeRun [] (releases [.cmdbuf k, .frameFence]) :=
        (safeRun_releases _ _).mpr (by simp)
      simp only [hq, hc, Option.toList_some, List.map_cons, List.map_nil, List.singleton_append,
        safeRun_append, DrainRetires, hv, forall_const, List.mem_singleton, forall_eq]
      have hfence : (frameSubmission k).fence = .frameFence := rfl
      cases status with
      | success => exact iff_of_true ⟨⟨trivial, trivial⟩, hgood⟩ (Or.inl rfl)
      | deviceLost => exact iff_of_true ⟨⟨trivial, trivial⟩, hgood⟩ (by simp)
      | notReady => exact absurd rfl hskip.2
      | timeout => exact iff_of_false (fun h => hbad h.2) (by simp [hfence])
      | error => exact iff_of_false (fun h => hbad h.2) (by simp [hfence])

/-- A drain that was safe keeps the invariant, and one that went through leaves nothing
pending. -/
theorem drainPending_inv {w : GpuWorld} (hw : GpuInv w) {status : VkResult}
    (hd : DrainRetires w status) :
    GpuInv { (drainPending w status).2 with pending := run w.pending (drainPending w status).1 } ∧
      (drained w status = true → run w.pending (drainPending w status).1 = [] ∧
        (drainPending w status).2.pendingFenceValid = false) := by
  rw [drainPending, drained]
  split_ifs with hskip
  · refine ⟨hw, fun hdr => ?_⟩
    obtain hv | rfl := hskip
    · obtain hq | ⟨hv', -⟩ := hw.quiet
      · exact ⟨hq, hv⟩
      · rw [hv] at hv'
        cases hv'
    · have hv : w.pendingFenceValid = false := by simpa using hdr
      obtain hq | ⟨hv', -⟩ := hw.quiet
      · exact ⟨hq, hv⟩
      · rw [hv] at hv'
        cases hv'
  · rw [not_or, Bool.not_eq_false] at hskip
    have hempty : run w.pending (waitCalls status .frameFence ++
        releases (w.pendingCmdbuf.toList.map GpuObject.cmdbuf ++ [.frameFence])) = [] := by
      rw [run_append]
      refine (run_releases _ _).trans ?_
      obtain hq | ⟨-, k, -, -, hq⟩ := hw.quiet
      · rw [hq]
        cases status <;> rfl
      · have hfence : (frameSubmission k).fence = .frameFence := rfl
        obtain rfl | h | rfl | h := hd hskip.1
        · rw [hq]
          rfl
        · exact absurd h hskip.2
        · rfl
        · exact absurd hfence (h _ (by simp [hq]))
    refine ⟨⟨Or.inl hempty, fun hin => ?_⟩, fun _ => ⟨hempty, rfl⟩⟩
    obtain ⟨hv, -⟩ := hw.progress hin
    rw [hskip.1] at hv
    cases hv

theorem drainPending_frameInProgress (w : GpuWorld) (status : VkResult) :
    (drainPending w status).2.frameInProgress = w.frameInProgress := by
  rw [drainPending]
  split_ifs <;> rfl

/-- Only the drain of begin_frame can go wrong. -/
theorem beginFrame_safe_iff {w : GpuWorld} (hw : GpuInv w) (status : VkResult)
    (allocOk beginOk : Bool) : SafeRun w.pending (beginFrame w status allocOk beginOk).1 ↔
      (w.frameInProgress = false → DrainRetires w status) := by
  rw [beginFrame]
  cases hin : w.frameInProgress with
  | true => exact iff_of_true trivial nofun
  | false =>
    simp only [Bool.false_eq_true, if_false, forall_const]
    rw [andThen, safeRun_append, drainPending_safe_iff hw]
    refine and_iff_left_of_imp fun hd => ?_
    split_ifs with hstop hfail
    · trivial
    · have hquiet := (drainPending_inv hw hd).1.toQuiet
      exact (clean_releases (by simp [fresh_cmdbuf]) _ hquiet).1.mpr trivial
    · trivial

theorem beginFrame_inv {w : GpuWorld} (hw : GpuInv w) {status : VkResult} {allocOk beginOk : Bool}
    (hd : w.frameInProgress = false → DrainRetires w status) :
    GpuInv { (beginFrame w status allocOk beginOk).2 with
      pending := run w.pending (beginFrame w status allocOk beginOk).1 } := by
  rw [beginFrame]
  cases hin : w.frameInProgress with
  | true => exact hw
  | false =>
    obtain ⟨hinv, hthrough⟩ := drainPending_inv hw (hd hin)
    simp only [Bool.false_eq_true, if_false, andThen]
    rw [run_append]
    have hidle : (drainPending w status).2.frameInProgress = false :=
      (drainPending_frameInProgress w status).trans hin
    split_ifs with hstop hfail
    · exact hinv
    · have hrel := run_releases [GpuObject.cmdbuf (drainPending w status).2.next]
        (run w.pending (drainPending w status).1)
      refine ⟨?_, fun h => ?_⟩
      · obtain hq | ⟨hv, k, hk, hc, hq⟩ := hinv.quiet
        · exact Or.inl (hrel.trans hq)
        · exact Or.inr ⟨hv, k, Nat.lt_succ_of_lt hk, hc, hrel.trans hq⟩
      · rw [hidle] at h
        cases h
    · rw [not_or, Bool.not_eq_false] at hstop
      obtain ⟨hempty, hvalid⟩ := hthrough hstop.1
      exact ⟨Or.inl hempty, fun _ => ⟨hvalid, _, Nat.lt_succ_self _, rfl⟩⟩

/- The last part of an event that meets an idle queue. -/
def EndsWell (r : List (Call GpuObject) × GpuWorld) : Prop :=
  SafeRun [] r.1 ∧ GpuInv { r.2 with pending := run [] r.1 }

theorem EndsWell.after {r : List (Call GpuObject) × GpuWorld}
    {f : GpuWorld → List (Call GpuObject) × GpuWorld} (hs : SafeRun [] r.1) (hr : run [] r.1 = [])
    (hf : EndsWell (f r.2)) : EndsWell (andThen r f) := by
  rw [EndsWell, andThen, safeRun_append, run_append, hr]
  exact ⟨⟨hs, hf.1⟩, hf.2⟩

theorem dropFrame_ends (w : GpuWorld) : EndsWell (dropFrame w) :=
  ⟨(safeRun_releases _ []).mpr (by simp), Or.inl (run_releases _ []), fun h => by cases h⟩

theorem submitFrame_ends {w : GpuWorld} {k : Nat} (hk : k < w.next) (hcmd : w.frameCmdbuf = some k)
    (submit : VkResult) : EndsWell (submitFrame w submit) := by
  rw [submitFrame]
  cases submit with
  | success =>
    refine ⟨⟨trivial, trivial⟩, Or.inr ⟨rfl, k, hk, hcmd, ?_⟩, fun h => by cases h⟩
    simp [hcmd, submitCalls, run, step, frameSubmission]
  | deviceLost => exact EndsWell.after ⟨trivial, trivial⟩ rfl (dropFrame_ends w)
  | timeout => exact EndsWell.after trivial rfl (dropFrame_ends w)
  | notReady => exact EndsWell.after trivial rfl (dropFrame_ends w)
  | error => exact EndsWell.after trivial rfl (dropFrame_ends w)

/-- No frame is submitted twice: while one is recorded the last one has been drained, so
the drain and the fence reset of end_frame find nothing pending. -/
theorem endFrame_safe {w : GpuWorld} (hw : GpuInv w) (status : VkResult) (endOk fenceOk : Bool)
    (submit : VkResult) :
    SafeRun w.pending (endFrame w status endOk fenceOk submit).1 ∧
      GpuInv { (endFrame w status endOk fenceOk submit).2 with
        pending := run w.pending (endFrame w status endOk fenceOk submit).1 } := by
  rw [endFrame]
  cases hin : w.frameInProgress with
  | false => exact ⟨trivial, hw⟩
  | true =>
    obtain ⟨hvalid, k, hk, hcmd⟩ := hw.progress hin
    have hpend : w.pending = [] := by
      obtain hq | ⟨hv, -⟩ := hw.quiet
      · exact hq
      · rw [hvalid] at hv
        cases hv
    rw [hpend, hvalid, if_neg Bool.noConfusion, if_neg Bool.noConfusion]
    refine EndsWell.after (r := ([], w)) trivial rfl ?_
    split_ifs with hfail
    · exact dropFrame_ends w
    · refine EndsWell.after (r := readyFrameFence w) ?_ ?_ ?_
      · rw [readyFrameFence]
        cases w.frameFence with
        | true => exact ⟨by simp [Safe], trivial⟩
        | false => trivial
      · rw [readyFrameFence]
        cases w.frameFence <;> rfl
      · exact submitFrame_ends (w := (readyFrameFence w).2) hk hcmd submit

/-- Every event but the three of the frame is a part of its own. -/
theorem gpuPerform_part (w : GpuWorld) (e : GpuEvent) :
    Part w (gpuPerform w e) (GpuCond w e) ∨
      (∃ status allocOk beginOk, e = .beginFrame status allocOk beginOk) ∨
      (∃ status endOk fenceOk submit, e = .endFrame status endOk fenceOk submit) ∨
      ∃ status, e = .drainPending status := by
  cases e with
  | draw o descSet ntr vbuf => exact Or.inl (part_once (clean_emitPendingDraw o descSet ntr vbuf _))
  | iosurfaceUpload o => exact Or.inl (part_once (clean_staging o _))
  | iosurfaceCreate o => exact Or.inl (part_once (clean_pair o _))
  | presentSurface o wantReadback => exact Or.inl (part_once (clean_present o wantReadback _))
  | readback o => exact Or.inl (part_once (clean_staging o _))
  | composite o => exact Or.inl (part_once (clean_pair o _))
  | clearImage o => exact Or.inl (part_once (clean_clearImage o _))
  | overlayCursor shown glyph o => exact Or.inl (part_overlayCursor w shown glyph o)
  | submitClearColor shown glyph o dma => exact Or.inl (part_submitClearColor w shown glyph o dma)
  | submitRenderedFrame shown glyph overlay target =>
    exact Or.inl (part_submitRenderedFrame w shown glyph overlay target)
  | beginFrame status allocOk beginOk => exact Or.inr (Or.inl ⟨status, allocOk, beginOk, rfl⟩)
  | endFrame status endOk fenceOk submit =>
    exact Or.inr (Or.inr (Or.inl ⟨status, endOk, fenceOk, submit, rfl⟩))
  | drainPending status => exact Or.inr (Or.inr (Or.inr ⟨status, rfl⟩))

theorem gpuSafe_iff (w : GpuWorld) (e : GpuEvent) (hw : GpuInv w) : GpuSafe w e ↔ GpuCond w e := by
  obtain hp | ⟨status, allocOk, beginOk, rfl⟩ | ⟨status, endOk, fenceOk, submit, rfl⟩ | ⟨status, rfl⟩ :=
    gpuPerform_part w e
  · exact (hp.clean _ hw.toQuiet).1
  · exact beginFrame_safe_iff hw status allocOk beginOk
  · exact iff_true_intro (endFrame_safe hw status endOk fenceOk submit).1
  · exact drainPending_safe_iff hw status

theorem gpuStep_inv (w : GpuWorld) (e : GpuEvent) (hw : GpuInv w) (hs : GpuSafe w e) :
    GpuInv (gpuStep w e) := by
  have hc := (gpuSafe_iff w e hw).mp hs
  obtain hp | ⟨status, allocOk, beginOk, rfl⟩ | ⟨status, endOk, fenceOk, submit, rfl⟩ | ⟨status, rfl⟩ :=
    gpuPerform_part w e
  · exact hp.inv hw hc
  · exact beginFrame_inv hw hc
  · exact (endFrame_safe hw status endOk fenceOk submit).2
  · exact (drainPending_inv hw hc).1

/-- Over every run, nothing of a pending submission is freed, destroyed or reset exactly
when each wait or status query before a free ended the submission it asked about, the
draw's own wait excepted. -/
theorem gpu_objects_kept_iff (es : List GpuEvent) :
    AllSteps gpuStep GpuSafe {} es ↔ AllSteps gpuStep GpuCond {} es :=
  allSteps_iff gpuStep gpuSafe_iff gpuStep_inv es {} ⟨Or.inl rfl, nofun⟩

/-- An upload whose fence wait times out, a frame drained on a failed status query, and a
rendered frame whose first copy times out: each frees a command buffer still in use. -/
theorem gpu_objects_freed_early :
    ¬ AllSteps gpuStep GpuSafe {} [.iosurfaceUpload { wait := .timeout }] ∧
    ¬ AllSteps gpuStep GpuSafe {} [.beginFrame .success true true,
        .endFrame .success true true .success, .drainPending .error] ∧
    ¬ AllSteps gpuStep GpuSafe {}
        [.submitRenderedFrame false {} {} (.scanout 4 (fun _ => .success) true .success
          { wait := .timeout })] := by
  decide

end Lagfx
