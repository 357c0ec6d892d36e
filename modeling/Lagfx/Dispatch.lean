import Lagfx.Display
import Lagfx.InnerWalk
import Lagfx.StampCell

/-! The three command dispatchers: root channel, compute channels, display
channels. Each maps an opcode to a handler; what a handler may touch is stated
once, for the drains that call it. -/
namespace Lagfx
open ByteMemory

def State.onWorld (s : State) (f : World → World) : State := { s with world := f s.world }

/-- One DMA reply, or none. -/
def State.writeReply (s : State) : Option (Nat × List UInt8) → State
  | none => s
  | some (gpa, bytes) => s.writeMemory gpa bytes

def deviceInfoValue (key : Nat) : Nat :=
  match key with
  | 0x0 => 1
  | 0x1 => maxTasks
  | 0x2 => maxFifos
  | _ => 0

def deviceInfoReply (hdr : CmdHeader) : Option (Nat × List UInt8) :=
  if hdr.payloadSize < 16 then none
  else if hdr.quad 4 = 0 then none
  else some (hdr.quad 4, putLe 4 (deviceInfoValue (hdr.word 0)))

def getDeviceInfo (s : State) (hdr : CmdHeader) : State := s.writeReply (deviceInfoReply hdr)

/-- Key and value of each device-info field, the sentinel last. -/
def deviceInfoPairs : List (Nat × Nat) :=
  [(0x01, 4), (0x02, 1), (0x03, 1024), (0x04, 1024), (0x05, 1024), (0x06, 32768), (0x07, 1),
   (0x08, 1), (0x09, 0), (0x0a, 0x00020008), (0x0b, 0x7f), (0x0c, 0), (0x0d, 256), (0x0e, 1),
   (0x0f, 256), (0x10, 1), (0x11, 1), (0x12, 0x00020008), (0x13, 0), (0x14, 1), (0x15, 0),
   (0x16, 0), (0x17, 0), (0x18, 0), (0x19, 0), (0x1a, 0), (0x1b, 0), (0x1c, 0), (0x1d, 1024),
   (0x1e, 32768), (0x1f, 32768), (0x20, 256), (0x21, 0), (0x22, 1), (0x23, 2048), (0x24, 0),
   (0x25, 0x10005), (0x26, 1), (0x27, 1024), (0x28, 256), (0x29, 0), (0x00, 0)]

def deviceInfoReply2 (hdr : CmdHeader) : Option (Nat × List UInt8) :=
  if hdr.payloadSize < 12 then none
  else if hdr.word 8 = 0 then none
  else some (hdr.word 8*2^12,
    (deviceInfoPairs.take (hdr.word 4)).flatMap fun p => putLe 4 p.1++putLe 4 p.2)

def getDeviceInfo2 (s : State) (hdr : CmdHeader) : State := s.writeReply (deviceInfoReply2 hdr)

def FifoTable.findFifo (t : FifoTable) (fifoId : Nat) : Option Nat :=
  t.entries.findIdx? fun e => e.live && e.id == fifoId

def FifoTable.allocFifoSlot (t : FifoTable) : Option Nat := t.entries.findIdx? fun e => !e.live

def defineChildChannel (w : World) (hdr : CmdHeader) : World :=
  if hdr.payloadSize < 4 then w
  else
    match w.fifos.findFifo (hdr.word 0) with
    | some _ => w
    | none =>
      match w.fifos.allocFifoSlot with
      | none => w
      | some i => { w with fifos := w.fifos.set i { id := hdr.word 0, live := true } }

def setResourceHeap (w : World) (hdr : CmdHeader) : World :=
  if hdr.payloadSize < 12 then w
  else
    match w.tasks.findTask (hdr.word 0) with
    | none => w
    | some i =>
      { w with tasks := w.tasks.set i { w.tasks.get i with
          heapPfn := hdr.word 4
          heapSize := hdr.word 8 } }

/-- The size guard of CmdExecIndirect2: its tables lie in the payload. -/
def execAccepted (hdr : CmdHeader) : Prop :=
  8 < hdr.payloadSize ∧ u32 (12+24*hdr.word 4+16*hdr.word 8) ≤ hdr.payloadSize

instance (hdr : CmdHeader) : Decidable (execAccepted hdr) :=
  inferInstanceAs (Decidable (_ ∧ _))

/- One inner dispatcher call: the tables and guest memory are its to change. -/
def execCall (env : Env) (ctx : ExecContext) (s : State) (call : InnerCall) : State :=
  let r := env.inner ctx call (s.world, s.mem)
  { s with world := r.1, mem := r.2 }

/- One entry of the resource table. The buffer is read whole before its calls. -/
def execResource (env : Env) (hdr : CmdHeader) (ctx : ExecContext) (resStart : Nat) (s : State)
    (i : Nat) : State :=
  let r := resStart+u32 (16*i)
  let task := ctx.taskSlot.map s.world.tasks.get
  let calls := execWalkResource s env task (hdr.quad r) (hdr.word (r+8))
  calls.foldl (execCall env ctx)
    { s with scratchExecHeapSize := execHeapSize s env (hdr.word (r+8)) }

def execResources (env : Env) (s : State) (hdr : CmdHeader) : State :=
  let resStart := 12+u32 (24*hdr.word 4)
  let ctx : ExecContext :=
    { taskSlot := s.world.tasks.findTask (hdr.word 0)
      taskId := hdr.word 0
      outerResources := (hdr.payload++hdr.beyond).drop resStart
      resourceCount := hdr.word 8
      stamp := hdr.stamp }
  (List.range (hdr.word 8)).foldl (execResource env hdr ctx resStart) s

/- CmdExecIndirect2 completes its own stamp on the current channel's slot, in
   addition to the completion of the drain that dispatched it. -/
def computeExecCmdbuf (env : Env) (s : State) (hdr : CmdHeader) : State :=
  if execAccepted hdr then
    let s := execResources env s hdr
    if hdr.stamp ≠ 0 then
      completeStampSlot s (if s.currentChanId < maxChannels then s.currentChanId else 0) hdr.stamp
    else s
  else s

def registerActiveObject (objects : List Nat) (objectId : Nat) : List Nat :=
  if objectId ∈ objects then objects
  else if objects.length < 64 then objects++[objectId]
  else objects

def setObjectPlacement (w : World) (hdr : CmdHeader) : World :=
  if hdr.payloadSize < 8 then w
  else
    match w.tasks.entries.findIdx? TaskEntry.live with
    | none => w
    | some i =>
      { w with tasks := w.tasks.set i { w.tasks.get i with
          activeObjects := registerActiveObject (w.tasks.get i).activeObjects (hdr.word 4) } }

def mapMemoryImmediate (w : World) (hdr : CmdHeader) : World :=
  if hdr.payloadSize < 20 then w
  else
    let gpa := hdr.quad 4
    let size := hdr.quad 12
    if 4*1024*1024 ≤ size ∧ gpa ≠ 0 ∧ gpa ∉ w.bigMaps.map Prod.fst ∧ w.bigMaps.length < 16 then
      { w with bigMaps := w.bigMaps++[(gpa, size)] }
    else w

/-- The latest address announced for a ref; at most 64 refs are kept. -/
def recordBacking (updates : List BackingUpdate) (ref addr : Nat) : List BackingUpdate :=
  match updates.findIdx? fun u => u.ref == ref with
  | some i => updates.set i { ref := ref, addr := addr }
  | none => if updates.length < 64 then updates++[{ ref := ref, addr := addr }] else updates

def backingUpdate (w : World) (hdr : CmdHeader) : World :=
  if hdr.payloadSize < 24 then w
  else
    { w with
      backingUpdate := recordBacking w.backingUpdate (hdr.word 4) (hdr.quad 16)
      resources := match w.resources.lookupTexture (hdr.word 4) with
        | none => w.resources
        | some i => w.resources.setBackingDirty i }

def countUnknown (s : State) : State :=
  { s with unknownOpcodeCount := u64 (s.unknownOpcodeCount+1) }

/- What the root dispatcher does with an opcode. `logged` are the opcodes it
   only logs, or hands to the shell without keeping anything. -/
inductive RootOp where
  | defineTask2 | deleteTask | getDeviceInfo | getDeviceInfo2 | execIndirect2
  | deleteBacking | create | lookup | importMachPort | unmap
  | defineChildChannel | setResourceHeap | defineHostTask | logged | unknown
deriving DecidableEq, Repr

def rootLogged : List Nat :=
  [0x02, 0x03, 0x04, 0x05, 0x06, 0x07, 0x08, 0x09, 0x0b, 0x0c, 0x0d, 0x0e, 0x21, 0x23, 0x31,
   0x3b, 0x3c, 0x41, 0x42, 0x80, 0x81, 0x82]

def rootOp (opcode : Nat) : RootOp :=
  match opcode with
  | 0x00 => .defineTask2
  | 0x01 => .deleteTask
  | 0x0a => .getDeviceInfo
  | 0x20 => .execIndirect2
  | 0x26 => .deleteBacking
  | 0x27 => .create
  | 0x28 => .lookup
  | 0x29 => .importMachPort
  | 0x2a => .unmap
  | 0x30 => .defineChildChannel
  | 0x33 => .setResourceHeap
  | 0x38 => .defineHostTask
  | 0x3a => .getDeviceInfo2
  | _ => if opcode ∈ rootLogged then .logged else .unknown

def rootDispatch (env : Env) (s : State) (hdr : CmdHeader) : State :=
  match rootOp hdr.opcode with
  | .defineTask2 => s.onWorld fun w => defineTask2 s.dev env w hdr
  | .deleteTask => s.onWorld fun w => deleteTask s.dev w hdr
  | .getDeviceInfo => getDeviceInfo s hdr
  | .getDeviceInfo2 => getDeviceInfo2 s hdr
  | .execIndirect2 => computeExecCmdbuf env s hdr
  | .deleteBacking => s.onWorld fun w => deleteBacking2 s.dev w hdr
  | .create => s.onWorld fun w => createBacking2 s.dev env w hdr
  | .lookup => s.onWorld fun w => lookupSurface s.dev env w hdr
  | .importMachPort => s.onWorld fun w => importMachPort w hdr
  | .unmap => s.onWorld fun w => unmapSurface s.dev w hdr
  | .defineChildChannel => s.onWorld fun w => defineChildChannel w hdr
  | .setResourceHeap => s.onWorld fun w => setResourceHeap w hdr
  | .defineHostTask => s.onWorld fun w => defineHostTask w hdr
  | .logged => s
  | .unknown => countUnknown s

inductive ComputeOp where
  | execIndirect2 | setObjectPlacement | lookup | mapMemoryImmediate | backingUpdate
  | logged | unknown
deriving DecidableEq, Repr

/- 0x37 is the per-channel name of CmdExecIndirect2. -/
def computeOp (opcode : Nat) : ComputeOp :=
  match opcode with
  | 0x20 => .execIndirect2
  | 0x37 => .execIndirect2
  | 0x25 => .setObjectPlacement
  | 0x28 => .lookup
  | 0x39 => .mapMemoryImmediate
  | 0x3b => .backingUpdate
  | _ => if opcode ∈ [0x22, 0x24, 0x34, 0x35, 0x36, 0x3c] then .logged else .unknown

def computeDispatch (env : Env) (s : State) (hdr : CmdHeader) : State :=
  match computeOp hdr.opcode with
  | .execIndirect2 => computeExecCmdbuf env s hdr
  | .setObjectPlacement => s.onWorld fun w => setObjectPlacement w hdr
  | .lookup => s.onWorld fun w => lookupSurface s.dev env w hdr
  | .mapMemoryImmediate => s.onWorld fun w => mapMemoryImmediate w hdr
  | .backingUpdate => s.onWorld fun w => backingUpdate w hdr
  | .logged => s
  | .unknown => countUnknown s

inductive DisplayOp where
  | setupSharedState | displaySubmit | present | presentGamma | swapMapping | logged | unknown
deriving DecidableEq, Repr

def displayLogged : List Nat :=
  [0x04, 0x10, 0x11, 0x13, 0x14, 0x15, 0x16, 0x17, 0x18, 0x19, 0x1a, 0x1e]

def displayOp (opcode : Nat) : DisplayOp :=
  match opcode with
  | 0x01 => .setupSharedState
  | 0x02 => .displaySubmit
  | 0x06 => .present
  | 0x07 => .presentGamma
  | 0x12 => .swapMapping
  | _ => if opcode ∈ displayLogged then .logged else .unknown

def displayDispatch (env : Env) (s : State) (hdr : CmdHeader) : State :=
  match displayOp hdr.opcode with
  | .setupSharedState => vchanSetupSharedState s hdr
  | .displaySubmit => vchanDisplaySubmit env s hdr
  | .present => s.onWorld fun w => vchanPresent s.dev s.currentChanId w hdr
  | .presentGamma => s.onWorld fun w => vchanPresentGamma s.dev s.currentChanId w hdr
  | .swapMapping => s.onWorld fun w => displaySwapMapping w hdr
  | .logged => s
  | .unknown => countUnknown s

/-- The part of the state no handler writes. -/
structure Regs where
  ringBasePfn : Nat
  ringBaseGpa : Nat
  ringSize : Nat
  ringSharedPagePfn : Nat
  readPtr : Nat
  writePtr : Nat
  currentChanId : Nat
  ringArmed : Bool
  readOk : Nat → Nat → Bool
  writeOk : Nat → Nat → Bool

def State.regs (s : State) : Regs :=
  { ringBasePfn := s.ringBasePfn
    ringBaseGpa := s.ringBaseGpa
    ringSize := s.ringSize
    ringSharedPagePfn := s.ringSharedPagePfn
    readPtr := s.readPtr
    writePtr := s.writePtr
    currentChanId := s.currentChanId
    ringArmed := s.ringArmed
    readOk := s.readOk
    writeOk := s.writeOk }

@[simp] theorem onWorld_regs (s : State) (f : World → World) : (s.onWorld f).regs = s.regs := rfl
@[simp] theorem countUnknown_regs (s : State) : (countUnknown s).regs = s.regs := rfl

@[simp] theorem writeMemory_regs (s : State) (gpa : Nat) (bs : List UInt8) :
    (s.writeMemory gpa bs).regs = s.regs := by
  unfold State.writeMemory; split <;> rfl

@[simp] theorem writeReply_regs (s : State) (r : Option (Nat × List UInt8)) :
    (s.writeReply r).regs = s.regs := by
  cases r with
  | none => rfl
  | some r => exact writeMemory_regs s r.1 r.2

@[simp] theorem completeStampSlot_regs (s : State) (slot stamp : Nat) :
    (completeStampSlot s slot stamp).regs = s.regs := by
  rw [completeStampSlot, advanceStampCell]
  dsimp only
  split
  · rfl
  · exact writeMemory_regs _ _ _

theorem foldl_regs {ι : Type*} {f : State → ι → State} (hf : ∀ s i, (f s i).regs = s.regs) :
    ∀ (l : List ι) (s : State), (l.foldl f s).regs = s.regs := by
  intro l
  induction l with
  | nil => intro s; rfl
  | cons i l ih => intro s; exact (ih (f s i)).trans (hf s i)

@[simp] theorem execResources_regs (env : Env) (s : State) (hdr : CmdHeader) :
    (execResources env s hdr).regs = s.regs := by
  refine foldl_regs (fun s i => ?_) _ s
  exact foldl_regs (f := execCall env _) (fun _ _ => rfl) _ _

@[simp] theorem computeExecCmdbuf_regs (env : Env) (s : State) (hdr : CmdHeader) :
    (computeExecCmdbuf env s hdr).regs = s.regs := by
  rw [computeExecCmdbuf]
  dsimp only
  split_ifs <;> simp

@[simp] theorem vchanSetupSharedState_regs (s : State) (hdr : CmdHeader) :
    (vchanSetupSharedState s hdr).regs = s.regs := by
  rw [vchanSetupSharedState]
  dsimp only
  split_ifs
  · rfl
  · rfl
  · exact writeMemory_regs _ _ _
  · exact writeMemory_regs _ _ _

@[simp] theorem vchanDisplaySubmit_regs (env : Env) (s : State) (hdr : CmdHeader) :
    (vchanDisplaySubmit env s hdr).regs = s.regs := by
  simp only [vchanDisplaySubmit, submitRenderedFrame]
  cases submitDisplay s.world hdr with
  | none => rfl
  | some disp =>
    dsimp only
    split_ifs
    · rfl
    · rfl
    · exact writeMemory_regs _ _ _

theorem rootDispatch_regs (env : Env) (s : State) (hdr : CmdHeader) :
    (rootDispatch env s hdr).regs = s.regs := by
  rw [rootDispatch, getDeviceInfo, getDeviceInfo2]
  cases rootOp hdr.opcode <;> simp

theorem computeDispatch_regs (env : Env) (s : State) (hdr : CmdHeader) :
    (computeDispatch env s hdr).regs = s.regs := by
  rw [computeDispatch]
  cases computeOp hdr.opcode <;> simp

theorem displayDispatch_regs (env : Env) (s : State) (hdr : CmdHeader) :
    (displayDispatch env s hdr).regs = s.regs := by
  rw [displayDispatch]
  cases displayOp hdr.opcode <;> simp

/-- The dispatcher that serves a channel. -/
def dispatchCommand (chan : Nat) : Env → State → CmdHeader → State :=
  if chan = 0 then rootDispatch else if chan < 5 then computeDispatch else displayDispatch

theorem dispatchCommand_regs (chan : Nat) (env : Env) (s : State) (hdr : CmdHeader) :
    (dispatchCommand chan env s hdr).regs = s.regs := by
  rw [dispatchCommand]
  split_ifs
  · exact rootDispatch_regs env s hdr
  · exact computeDispatch_regs env s hdr
  · exact displayDispatch_regs env s hdr

/-- The command is a CmdExecIndirect2 that passes its size guard. -/
def ExecRuns (chan : Nat) (hdr : CmdHeader) : Prop :=
  execAccepted hdr ∧
    (chan = 0 ∧ rootOp hdr.opcode = .execIndirect2 ∨
      0 < chan ∧ chan < 5 ∧ computeOp hdr.opcode = .execIndirect2)

/- Where the handler of a command puts its reply, from the state it starts in:
   address and length. CmdExecIndirect2 is not covered here. -/
def sharedStateReply (hdr : CmdHeader) : Option (Nat × Nat) :=
  if hdr.payloadSize < 8 ∨ hdr.word 4 = 0 then none else some (hdr.word 4*2^12, 0x220)

def submitReply (env : Env) (s : State) (hdr : CmdHeader) : Option (Nat × Nat) :=
  (submitDisplay s.world hdr).map fun disp =>
    ((scanoutTarget disp (submitArgs hdr).2).1, env.frame.length)

def replyRange (chan : Nat) (env : Env) (s : State) (hdr : CmdHeader) : Option (Nat × Nat) :=
  if chan = 0 then
    match rootOp hdr.opcode with
    | .getDeviceInfo => (deviceInfoReply hdr).map fun r => (r.1, r.2.length)
    | .getDeviceInfo2 => (deviceInfoReply2 hdr).map fun r => (r.1, r.2.length)
    | _ => none
  else if chan < 5 then none
  else
    match displayOp hdr.opcode with
    | .setupSharedState => sharedStateReply hdr
    | .displaySubmit => submitReply env s hdr
    | _ => none

/-- `x` lies outside the range. -/
def Outside (x : Nat) (range : Option (Nat × Nat)) : Prop :=
  ∀ r ∈ range, x < r.1 ∨ r.1+r.2 ≤ x

theorem computeExecCmdbuf_rejected {env : Env} {s : State} {hdr : CmdHeader}
    (h : ¬ execAccepted hdr) : computeExecCmdbuf env s hdr = s := by
  simp [computeExecCmdbuf, h]

theorem writeReply_mem {s : State} {r : Option (Nat × List UInt8)} {x : Nat}
    (h : Outside x (r.map fun r => (r.1, r.2.length))) : (s.writeReply r).mem x = s.mem x := by
  cases r with
  | none => rfl
  | some r => exact writeMemory_mem_outside s r.1 r.2 x (h (r.1, r.2.length) rfl)

theorem vchanSetupSharedState_mem {s : State} {hdr : CmdHeader} {x : Nat}
    (h : Outside x (sharedStateReply hdr)) : (vchanSetupSharedState s hdr).mem x = s.mem x := by
  by_cases hs : hdr.payloadSize < 8
  · simp [vchanSetupSharedState, hs]
  · by_cases hz : hdr.word 4 = 0
    · simp [vchanSetupSharedState, hz]
    · have hx : x < hdr.word 4*2^12 ∨ hdr.word 4*2^12+(ssBlob (hdr.word 0)).length ≤ x := by
        rw [ssBlob_length]
        exact h (hdr.word 4*2^12, 0x220) (by simp [sharedStateReply, hs, hz])
      rw [vchanSetupSharedState]
      simp only [hs, hz, if_false]
      rw [writeMemory_mem_outside _ _ _ _ hx]
      split_ifs <;> rfl

theorem vchanDisplaySubmit_mem {env : Env} {s : State} {hdr : CmdHeader} {x : Nat}
    (h : Outside x (submitReply env s hdr)) : (vchanDisplaySubmit env s hdr).mem x = s.mem x := by
  rw [vchanDisplaySubmit]
  cases hd : submitDisplay s.world hdr with
  | none => rfl
  | some disp =>
    have hx := h ((scanoutTarget disp (submitArgs hdr).2).1, env.frame.length)
      (by simp [submitReply, hd])
    dsimp only
    rw [submitRenderedFrame]
    split_ifs
    · rfl
    · rfl
    · exact writeMemory_mem_outside _ _ _ _ hx

/-- A command whose exec does not run writes guest memory in its reply only. -/
theorem dispatchCommand_mem {chan : Nat} {env : Env} {s : State} {hdr : CmdHeader} {x : Nat}
    (he : ¬ ExecRuns chan hdr) (hr : Outside x (replyRange chan env s hdr)) :
    (dispatchCommand chan env s hdr).mem x = s.mem x := by
  by_cases h0 : chan = 0
  · simp only [dispatchCommand, replyRange, h0, if_true] at hr ⊢
    rw [rootDispatch]
    cases hop : rootOp hdr.opcode with
    | getDeviceInfo => rw [hop] at hr; exact writeReply_mem hr
    | getDeviceInfo2 => rw [hop] at hr; exact writeReply_mem hr
    | execIndirect2 =>
      have hn : ¬ execAccepted hdr := fun ha => he ⟨ha, Or.inl ⟨h0, hop⟩⟩
      exact congrFun (congrArg State.mem (computeExecCmdbuf_rejected hn)) x
    | _ => rfl
  · by_cases h5 : chan < 5
    · simp only [dispatchCommand, h0, h5, if_false, if_true]
      rw [computeDispatch]
      cases hop : computeOp hdr.opcode with
      | execIndirect2 =>
        have hn : ¬ execAccepted hdr := fun ha => he ⟨ha, Or.inr ⟨by omega, h5, hop⟩⟩
        exact congrFun (congrArg State.mem (computeExecCmdbuf_rejected hn)) x
      | _ => rfl
    · simp only [dispatchCommand, replyRange, h0, h5, if_false] at hr ⊢
      rw [displayDispatch]
      cases hop : displayOp hdr.opcode with
      | setupSharedState => rw [hop] at hr; exact vchanSetupSharedState_mem hr
      | displaySubmit => rw [hop] at hr; exact vchanDisplaySubmit_mem hr
      | _ => rfl

end Lagfx
