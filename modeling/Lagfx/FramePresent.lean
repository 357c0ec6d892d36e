import Lagfx.Lib.Debounce
import Lagfx.Display

/-! How a frame reaches the shell. Draws and submits announce it, and
lagfx_display_read_frame hands it over: held back while the draw stream is busy, read
back from the render target, blacked out beyond the guest's scanout. -/
namespace Lagfx.Present
open ByteMemory

/-- The values of lagfx_status_t that the functions here return. -/
inductive FrameStatus where
  | ok | invalidArg | vulkanInit | noFrame | backend
deriving DecidableEq, Repr

/-- The first Vulkan call of a submission that fails, as the status it is given. -/
inductive GpuStatus where
  | success | vulkanInit | backend
deriving DecidableEq, Repr

def GpuStatus.status : GpuStatus → FrameStatus
  | .success => .ok
  | .vulkanInit => .vulkanInit
  | .backend => .backend

/- What is fixed while a display lives: the frame image of the pipeline, with its view,
   the callbacks of the shell, the environment variables. -/
structure FrameConfig where
  vk : Bool := true
  frameImage : Option (Nat × Nat) := none
  frameImageView : Bool := true
  readMemory : Bool := true
  writeMemory : Bool := true
  disableSettle : Bool := false
  settleMs : Nat := 250
  disableGutterCrop : Bool := false
  frameOnSwap : Bool := false
deriving DecidableEq, Repr

/-- lagfx_vk_render_target_t; every target here is BGRA8, four bytes a texel. -/
structure RenderTarget where
  image : Bool := false
  width : Nat := 0
  height : Nat := 0
deriving DecidableEq, Repr

def RenderTarget.stride (rt : RenderTarget) : Nat := rt.width*4
def RenderTarget.need (rt : RenderTarget) : Nat := rt.stride*rt.height

structure FallbackPixels where
  pixels : List UInt8
  stride : Nat
deriving DecidableEq, Repr

structure FrameDisplay extends Display where
  rt : RenderTarget := {}
  newFrameReady : Bool := false
  hasFrame : Bool := false
  fallback : Option FallbackPixels := none
  lastSignalNs : Nat := 0
  settleHoldStartNs : Nat := 0
deriving DecidableEq, Repr

/- `announced` tells that set_frame_ready ran, so that the shell's frame_ready was called. -/
structure FrameReply where
  status : FrameStatus
  announced : Bool := false
  stride : Nat := 0
  newFrame : Bool := false
  dst : Option (List UInt8) := none
deriving DecidableEq, Repr

def maxModePixels : Nat := 4096

/-- The first mode of the descriptor, where it has a usable size. -/
def displayMode : List (Nat × Nat) → Nat × Nat
  | [] => (displayDefaultW, displayDefaultH)
  | (w, h) :: _ =>
    if 0 < w ∧ 0 < h ∧ w ≤ maxModePixels ∧ h ≤ maxModePixels then (w, h)
    else (displayDefaultW, displayDefaultH)

/- `created` is the outcome of lagfx_vk_render_target_create, tried where the frame image
   of the pipeline cannot be wrapped. -/
def displayRtCreate (cfg : FrameConfig) (modes : List (Nat × Nat)) (created : Bool)
    (d : FrameDisplay) : FrameDisplay :=
  if cfg.vk = false then d
  else
    let m := displayMode modes
    let d := { d with rtWidth := m.1, rtHeight := m.2 }
    if (cfg.frameImage = some m ∧ cfg.frameImageView = true) ∨ created = true then
      { d with rt := ⟨true, m.1, m.2⟩, rtReady := true }
    else { d with rt := {}, rtReady := false }

def displayNew (cfg : FrameConfig) (modes : List (Nat × Nat)) (created : Bool) : FrameDisplay :=
  displayRtCreate cfg modes created {}

def setFrameReady (d : FrameDisplay) : FrameDisplay := { d with newFrameReady := true }

def displaySignalFrameReady (d : FrameDisplay) (now : Nat) : FrameDisplay :=
  setFrameReady { d with lastSignalNs := now }

/-- The copy of the image into `dst`, with the stride. Nothing is written on failure. -/
def renderTargetReadback (rt : RenderTarget) (dst : List UInt8) (gpu : GpuStatus)
    (image : Nat → UInt8) : FrameStatus × Nat × List UInt8 :=
  if rt.image = false then (.invalidArg, 0, dst)
  else if dst.length < rt.need then (.invalidArg, 0, dst)
  else if gpu ≠ .success then (gpu.status, rt.stride, dst)
  else (.ok, rt.stride, (List.range rt.need).map image++dst.drop rt.need)

def submitClearColor (cfg : FrameConfig) (d : FrameDisplay) (gpu : GpuStatus) :
    FrameDisplay × FrameReply :=
  if d.rtReady = false ∨ cfg.vk = false then (setFrameReady d, { status := .ok, announced := true })
  else if gpu ≠ .success then (d, { status := gpu.status })
  -- the writeback to guest memory that may follow leaves the display alone
  else (setFrameReady d, { status := .ok, announced := true })

def frameBytes (m : Nat × Nat) : Nat := m.2*u32 (m.1*4)

/-- No scanout buffer: the frame is kept for the next read. `alloc` is what malloc gives. -/
def submitFallback (cfg : FrameConfig) (d : FrameDisplay) (alloc : Option (Nat → UInt8))
    (gpu : GpuStatus) (image : Nat → UInt8) : FrameDisplay × FrameReply :=
  match cfg.frameImage with
  | none => (d, { status := .ok })
  | some m =>
    if cfg.vk = false ∨ frameBytes m = 0 then (d, { status := .ok })
    else match alloc with
      | none => (d, { status := .backend })
      | some heap =>
        let r := renderTargetReadback d.rt ((List.range (frameBytes m)).map heap) gpu image
        if r.1 ≠ .ok then (d, { status := r.1 })
        else
          let d := if cfg.readMemory then { d with fallback := some ⟨r.2.2, r.2.1⟩ } else d
          (setFrameReady d, { status := .ok, announced := true })

/-- The copy through the staging ring into the guest's scanout buffer. -/
def submitScanout (cfg : FrameConfig) (d : FrameDisplay) (scanoutLength : Nat) (gpu : GpuStatus) :
    FrameDisplay × FrameReply :=
  match cfg.frameImage with
  | none => (d, { status := .ok })
  | some m =>
    if cfg.vk = false ∨ cfg.writeMemory = false ∨ frameBytes m = 0 ∨
        scanoutLength < frameBytes m then
      (d, { status := .ok })
    else if gpu ≠ .success then (d, { status := gpu.status })
    else (setFrameReady d, { status := .ok, announced := true })

def displaySubmitRendered (cfg : FrameConfig) (d : FrameDisplay) (scanoutGpa scanoutLength : Nat)
    (alloc : Option (Nat → UInt8)) (gpu : GpuStatus) (image : Nat → UInt8) :
    FrameDisplay × FrameReply :=
  if scanoutGpa = 0 ∨ scanoutLength = 0 then submitFallback cfg d alloc gpu image
  else submitScanout cfg d scanoutLength gpu

/-- The size of the scanout a CmdDisplaySwapMapping gives display `index`. -/
def swapScanout (index : Nat) (hdr : CmdHeader) : Option (Nat × Nat) :=
  if hdr.payloadSize < 40 ∨ hdr.word 0 ≠ index then none else some (hdr.word 16, hdr.word 20)

def withScanout (disp : Display) (hdr : CmdHeader) (m : Nat × Nat) : Display :=
  { disp with
    scanoutGpa := hdr.quad 8
    scanoutLength := hdr.word 4
    scanoutWidth := m.1
    scanoutHeight := m.2
    scanoutValid := true }

/-- The scanout of display `index` after the command. -/
def mapScanout (index : Nat) (disp : Display) (hdr : CmdHeader) : Display :=
  ((swapScanout index hdr).map (withScanout disp hdr)).getD disp

/-- lagfx_display_swap_mapping, on the display `index` of the device. The status of a command
handler is not one of these and is left out. -/
def swapMapping (cfg : FrameConfig) (index : Nat) (d : FrameDisplay) (now : Nat)
    (hdr : CmdHeader) : FrameDisplay × FrameReply :=
  match swapScanout index hdr with
  | none => (d, { status := .ok })
  | some m =>
    let d := { d with toDisplay := withScanout d.toDisplay hdr m }
    if cfg.frameOnSwap then (displaySignalFrameReady d now, { status := .ok, announced := true })
    else (d, { status := .ok })

/-- `now - since` on unsigned 64-bit words. -/
def elapsed (now since : Nat) : Nat := u64 (now+2^64-since)

/-- The settle latch: whether the frame is held, and settleHoldStartNs after it. -/
def settle (cfg : FrameConfig) (d : FrameDisplay) (now : Nat) : Bool × Nat :=
  if cfg.disableSettle = false ∧ d.rtReady = true ∧ d.lastSignalNs ≠ 0 then
    let sinceSig := elapsed now d.lastSignalNs
    if sinceSig < u64 (cfg.settleMs*1000000) then
      let start := if d.settleHoldStartNs = 0 then now else d.settleHoldStartNs
      if elapsed now start < u64 (cfg.settleMs*8*1000000) then (true, start) else (false, 0)
    else (false, 0)
  else (false, d.settleHoldStartNs)

/-- memset to 0 of `len` bytes at `off`. -/
def blank (fb : List UInt8) (off len : Nat) : List UInt8 :=
  fb.take off++(List.replicate len 0++fb.drop (off+len))

def cropRow (rt : RenderTarget) (gw gh y : Nat) (fb : List UInt8) : List UInt8 :=
  if gh ≤ y then blank fb (y*rt.stride) (rt.width*4)
  else if gw < rt.width then blank fb (y*rt.stride+gw*4) ((rt.width-gw)*4)
  else fb

/-- The rows from `y` on, `n` of them; the loop stops at a row that is not all in `dst`. -/
def gutterCrop (rt : RenderTarget) (gw gh : Nat) : Nat → Nat → List UInt8 → List UInt8
  | 0, _, fb => fb
  | n+1, y, fb =>
    if fb.length < y*rt.stride+rt.width*4 then fb
    else gutterCrop rt gw gh n (y+1) (cropRow rt gw gh y fb)

def cropsGutter (cfg : FrameConfig) (d : FrameDisplay) (stride : Nat) : Bool :=
  decide (cfg.disableGutterCrop = false ∧ d.scanoutValid = true ∧ 0 < d.scanoutWidth ∧
    0 < d.scanoutHeight ∧ 4 ≤ stride)

/-- The read past the latch, with no pixels kept for it. -/
def serveTarget (cfg : FrameConfig) (d : FrameDisplay) (dst : Option (List UInt8))
    (gpu : GpuStatus) (image : Nat → UInt8) : FrameDisplay × FrameReply :=
  if d.rtReady = false ∨ cfg.vk = false then
    ({ d with newFrameReady := false }, { status := .noFrame, dst := dst })
  else match dst with
    | none => (d, { status := .invalidArg })
    | some buf =>
      let r := renderTargetReadback d.rt buf gpu image
      if r.1 ≠ .ok then
        ({ d with newFrameReady := false }, { status := r.1, dst := some r.2.2 })
      else
        let out := if cropsGutter cfg d r.2.1 then
            gutterCrop d.rt d.scanoutWidth d.scanoutHeight d.rt.height 0 r.2.2
          else r.2.2
        ({ d with newFrameReady := false, hasFrame := true },
          { status := .ok, stride := r.2.1, newFrame := true, dst := some out })

def serveFrame (cfg : FrameConfig) (d : FrameDisplay) (dst : Option (List UInt8))
    (gpu : GpuStatus) (image : Nat → UInt8) : FrameDisplay × FrameReply :=
  match d.fallback, dst with
  | some fb, some buf =>
    if d.rtReady = true then serveTarget cfg d (some buf) gpu image
    else
      ({ d with fallback := none, newFrameReady := false, hasFrame := true },
        { status := .ok
          stride := fb.stride
          newFrame := true
          dst := some (fb.pixels.take buf.length++buf.drop (min fb.pixels.length buf.length)) })
  | _, _ => serveTarget cfg d dst gpu image

def displayReadFrame (cfg : FrameConfig) (d : FrameDisplay) (now : Nat)
    (dst : Option (List UInt8)) (gpu : GpuStatus) (image : Nat → UInt8) :
    FrameDisplay × FrameReply :=
  if d.newFrameReady = false then (d, { status := .noFrame, dst := dst })
  else
    let g := settle cfg d now
    let d := { d with settleHoldStartNs := g.2 }
    if g.1 then (d, { status := .noFrame, dst := dst }) else serveFrame cfg d dst gpu image

/- `image` is the image of the target as the copy of that call finds it, `gpu` the
   outcome of the call's submission. -/
inductive FrameCall where
  | signalFrameReady
  | submitClearColor (gpu : GpuStatus)
  | submitRendered (scanoutGpa scanoutLength : Nat) (alloc : Option (Nat → UInt8))
      (gpu : GpuStatus) (image : Nat → UInt8)
  | swapMapping (hdr : CmdHeader)
  | readFrame (dst : Option (List UInt8)) (gpu : GpuStatus) (image : Nat → UInt8)

/-- A call and the clock it reads. -/
structure FrameEvent where
  now : Nat
  call : FrameCall

def frameStep (cfg : FrameConfig) (index : Nat) (d : FrameDisplay) (e : FrameEvent) :
    FrameDisplay × FrameReply :=
  match e.call with
  | .signalFrameReady => (displaySignalFrameReady d e.now, { status := .ok, announced := true })
  | .submitClearColor gpu => submitClearColor cfg d gpu
  | .submitRendered gpa len alloc gpu image => displaySubmitRendered cfg d gpa len alloc gpu image
  | .swapMapping hdr => swapMapping cfg index d e.now hdr
  | .readFrame dst gpu image => displayReadFrame cfg d e.now dst gpu image

structure FrameEntry where
  event : FrameEvent
  reply : FrameReply

/-- One call of a run, with the calls before it, the latest first. -/
def frameAdvance (cfg : FrameConfig) (index : Nat) (s : FrameDisplay × List FrameEntry)
    (e : FrameEvent) : FrameDisplay × List FrameEntry :=
  let r := frameStep cfg index s.1 e
  (r.1, ⟨e, r.2⟩ :: s.2)

/-- A display from its creation on. -/
def frameRun (cfg : FrameConfig) (index : Nat) (modes : List (Nat × Nat)) (created : Bool)
    (es : List FrameEvent) : FrameDisplay × List FrameEntry :=
  es.foldl (frameAdvance cfg index) (displayNew cfg modes created, [])

/-- The calls come in the order of a clock that starts above 0 and does not wrap. -/
def Clocked (es : List FrameEvent) : Prop :=
  (es.map FrameEvent.now).Pairwise (· ≤ ·) ∧ ∀ e ∈ es, 0 < e.now ∧ e.now < 2^64

end Lagfx.Present
