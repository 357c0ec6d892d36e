import Lagfx.TaskTable
import Lagfx.ObjectResolver
import Lagfx.PendingPipeline

/-! The encType 0 command table: what each command does to the draw state of the task
entry it is given, and which entry that is. The walker finds a task by its id; the
handlers index the table with the id. -/
namespace Lagfx
open ByteMemory Runs

def maxBindingSlots : Nat := 32

structure BindingSlot where
  ref : Nat := 0
  offset : Nat := 0
  valid : Bool := false
deriving DecidableEq, Repr

/- Clear values are kept as the bits of the floats. -/
structure RenderPassDesc where
  valid : Bool := false
  colorFormat : Nat := 0
  depthFormat : Nat := 0
  clearColor : List Nat := [0, 0, 0, 0]
  clearDepth : Nat := 0
  renderAreaX : Nat := 0
  renderAreaY : Nat := 0
  renderAreaW : Nat := 0
  renderAreaH : Nat := 0
  viewCount : Nat := 0
  targetRef : Nat := 0
deriving DecidableEq, Repr

structure PendingDraw where
  valid : Bool := false
  primitiveType : Nat := 0
  indexCount : Nat := 0
  instanceCount : Nat := 0
  baseVertex : Int := 0
  firstInstance : Nat := 0
  indexBufferRef : Nat := 0
  indexBufferOffset : Nat := 0
  indexType : Nat := 0
  indexed : Bool := false
deriving DecidableEq, Repr

structure Rect where
  x : Nat := 0
  y : Nat := 0
  w : Nat := 0
  h : Nat := 0
deriving DecidableEq, Repr

/- The part of a task entry the inner commands write. -/
structure DrawState where
  renderPass : RenderPassDesc := {}
  scissorW : Nat := 0
  scissorH : Nat := 0
  sc : Rect := {}
  scHave : Bool := false
  vp : Rect := {}
  vpValid : Bool := false
  vpCurrent : Bool := false
  pendingDraw : PendingDraw := {}
  vertexBuffers : List BindingSlot := List.replicate maxBindingSlots {}
  fragmentBuffers : List BindingSlot := List.replicate maxBindingSlots {}
  fragmentTextures : List BindingSlot := List.replicate maxBindingSlots {}
  pendingPipeline : PendingPipeline := {}
deriving DecidableEq

/- What a handler reads besides its body and its entry: the guest memory, the process
   environment, the answers SetRenderPipelineState gets, and lagfx_emit_pending_draw,
   which is handed the entry and the vertex count. -/
structure InnerEnv where
  guest : State := {}
  legacyDraw01 : Bool := false
  dc64Field : Option Nat := none
  draw64 : Bool := false
  texcomp : Bool := true
  loaded : Bool := true
  handles : Handles := ⟨0, 0⟩
  outcome : TaskEntry → Nat → SetOutcome := fun _ _ => ⟨false, none, none, false, false, false⟩
  emitPendingDraw : TaskEntry → Nat → DrawState → DrawState := fun _ _ d => d

/- A handler: the size check on its body and what it does to its entry. -/
structure ComputeInnerOp where
  opcode : Nat
  accepts : List UInt8 → Bool
  effect : InnerEnv → List UInt8 → TaskEntry → DrawState → DrawState

def atLeast (n : Nat) (body : List UInt8) : Bool := decide (n ≤ body.length)

/- Group A: draws. Each records the draw and then emits it. -/

def opDrawPrimitives16 : ComputeInnerOp where
  opcode := 0x01
  accepts := atLeast 8
  effect env b task d :=
    let start := if env.legacyDraw01 then le32 b 0 else le16 b 4
    let count := if env.legacyDraw01 then le32 b 4 else le16 b 6
    env.emitPendingDraw task count { d with pendingDraw := { d.pendingDraw with
      valid := true
      indexed := false
      primitiveType := le16 b 0
      indexCount := count
      baseVertex := (BitVec.ofNat 32 start).toInt
      instanceCount := 1
      firstInstance := 0 } }

/-- The count is a guess between fields, and the draw is not emitted by default. -/
def opDrawPrimitives64 : ComputeInnerOp where
  opcode := 0x00
  accepts := atLeast 8
  effect env b task d :=
    let c16 := le16 b 6
    let guess := if 0 < c16 then c16 else le32 b 4
    let count := match env.dc64Field with
      | none => guess
      | some which => if which = 0 then le32 b 0 else if which = 6 then c16 else le32 b 4
    let d := { d with pendingDraw := { d.pendingDraw with
      valid := true
      indexed := false
      indexCount := count
      baseVertex := 0
      instanceCount := 1
      firstInstance := 0 } }
    if env.draw64 then env.emitPendingDraw task count d else d

def opDrawInstancedPrimitives16 : ComputeInnerOp where
  opcode := 0x03
  accepts := atLeast 8
  effect env b task d :=
    let count := le16 b 2
    env.emitPendingDraw task count { d with pendingDraw := { d.pendingDraw with
      valid := true
      indexed := false
      primitiveType := le16 b 6
      indexCount := count
      baseVertex := le16 b 0
      instanceCount := if le16 b 4 = 0 then 1 else le16 b 4
      firstInstance := 0 } }

/-- Parses an index type and an offset and stores neither. -/
def opDrawIndexedPrimitives64 : ComputeInnerOp where
  opcode := 0x06
  accepts := atLeast 24
  effect env b task d :=
    let count := le32 b 0
    env.emitPendingDraw task count { d with pendingDraw := { d.pendingDraw with
      valid := true
      indexed := true
      indexCount := count
      indexBufferRef := le32 b 8
      baseVertex := 0
      instanceCount := 1
      firstInstance := 0 } }

def opDrawIndexedPrimitives16 : ComputeInnerOp where
  opcode := 0x07
  accepts := atLeast 12
  effect env b task d :=
    let count := le16 b 8
    env.emitPendingDraw task count { d with pendingDraw :=
      { valid := true
        indexed := true
        primitiveType := le16 b 0
        indexType := le16 b 2
        indexCount := count
        indexBufferRef := le32 b 4
        indexBufferOffset := le16 b 10
        baseVertex := 0
        instanceCount := 1
        firstInstance := 0 } }

/- Group B: render pass and barrier. -/

def opRenderBarrierScope : ComputeInnerOp where
  opcode := 0x17
  accepts := atLeast 4
  effect _ _ _ d := d

/-- VkFormat of a Metal pixel format; anything unknown is BGRA8. -/
def appleFormatToVk (fmt : Nat) : Nat :=
  if fmt = 70 then 37
  else if fmt = 115 then 97
  else if fmt = 1 ∨ fmt = 10 then 9
  else if fmt = 252 then 126
  else if fmt = 25 then 124
  else 44

def isRenderTarget (guest : State) (task : TaskEntry) (v : Nat) : Bool :=
  match resolveObjectData guest task v with
  | none => false
  | some o => decide (o.dataVa ≠ 0 ∧ (o.type = 0x03 ∨ o.type = 0x05))

/-- The first word of the attachment region that names a renderable surface, or 0. -/
def targetRefOf (guest : State) (task : TaskEntry) (b : List UInt8) : Nat :=
  let offs := (List.range 20).map fun k => 48+4*k
  let hit := offs.find? fun off => decide (off+4 ≤ b.length ∧ le32 b off ≠ 0 ∧ le32 b off ≤ 0xffff) &&
    isRenderTarget guest task (le32 b off)
  (hit.map fun off => le32 b off).getD 0

def opRenderDescribeRenderPass : ComputeInnerOp where
  opcode := 0x1a
  accepts := atLeast 48
  effect env b task d :=
    { d with
      scHave := false
      vpCurrent := false
      renderPass :=
        { valid := true
          viewCount := le32 b 0
          colorFormat := appleFormatToVk (le32 b 4)
          depthFormat := if le32 b 8 ≠ 0 then appleFormatToVk (le32 b 8) else 0
          clearColor := [le32 b 12, le32 b 16, le32 b 20, le32 b 24]
          clearDepth := le32 b 28
          renderAreaX := le32 b 32
          renderAreaY := le32 b 36
          renderAreaW := le32 b 40
          renderAreaH := le32 b 44
          targetRef := targetRefOf env.guest task b } }

/- Group C: binding tables. A head of two words, then entries of a fixed size. -/

def bindsFit (entryBytes : Nat) (b : List UInt8) : Bool :=
  decide (8 ≤ b.length ∧ 8+le32 b 4*entryBytes ≤ b.length)

/-- Slots past the table are skipped; `offsetOf` reads the offset of an entry. -/
def bindSlots (entryBytes : Nat) (offsetOf : Nat → Nat) (b : List UInt8) (slots : List BindingSlot) :
    List BindingSlot :=
  (List.range (le32 b 4)).foldl (fun slots i =>
    let e := 8+i*entryBytes
    let slotIndex := u32 (le32 b 0+i)
    if maxBindingSlots ≤ slotIndex then slots
    else slots.set slotIndex ⟨le32 b e, offsetOf e, decide (le32 b e ≠ 0)⟩) slots

/-- Only the offset of a slot; a slot past the table is refused. -/
def bindOffset (b : List UInt8) (slots : List BindingSlot) : List BindingSlot :=
  if maxBindingSlots ≤ le32 b 0 then slots
  else slots.modify (le32 b 0) fun s => { s with offset := le64 b 4 }

def opSetFragmentBuffers : ComputeInnerOp where
  opcode := 0x6e
  accepts := bindsFit 12
  effect _ b _ d :=
    { d with fragmentBuffers := bindSlots 12 (fun e => le64 b (e+4)) b d.fragmentBuffers }

def opSetFragmentBufferOffset : ComputeInnerOp where
  opcode := 0x6f
  accepts := atLeast 12
  effect _ b _ d := { d with fragmentBuffers := bindOffset b d.fragmentBuffers }

/-- Logs the refs and stores nothing. -/
def opSetFragmentSamplerStates : ComputeInnerOp where
  opcode := 0x70
  accepts := bindsFit 4
  effect _ _ _ d := d

def opSetFragmentTextures : ComputeInnerOp where
  opcode := 0x72
  accepts := bindsFit 4
  effect _ b _ d := { d with fragmentTextures := bindSlots 4 (fun _ => 0) b d.fragmentTextures }

def opSetVertexBuffers : ComputeInnerOp where
  opcode := 0x7d
  accepts := bindsFit 12
  effect _ b _ d := { d with vertexBuffers := bindSlots 12 (fun e => le64 b (e+4)) b d.vertexBuffers }

def opSetVertexBufferOffset : ComputeInnerOp where
  opcode := 0x7e
  accepts := atLeast 12
  effect _ b _ d := { d with vertexBuffers := bindOffset b d.vertexBuffers }

/- Group D: pipeline, scissor and viewport. -/

def opSetRenderPipelineState : ComputeInnerOp where
  opcode := 0x74
  accepts := atLeast 4
  effect env b task d :=
    let reference := le32 b 0
    { d with pendingPipeline := (setRenderPipelineState env.texcomp env.loaded env.handles reference
        (env.outcome task reference) d.pendingPipeline).2 }

/-- The surface size has a floor of 16, the clip rectangle has not. -/
def opSetScissorRect : ComputeInnerOp where
  opcode := 0x75
  accepts := atLeast 32
  effect _ b _ d :=
    let r : Rect := ⟨le64 b 0, le64 b 8, le64 b 16, le64 b 24⟩
    let d := if 16 ≤ r.w ∧ r.w ≤ 16384 ∧ 16 ≤ r.h ∧ r.h ≤ 16384
      then { d with scissorW := r.w, scissorH := r.h } else d
    if 1 ≤ r.w ∧ r.w ≤ 16384 ∧ 1 ≤ r.h ∧ r.h ≤ 16384 ∧ r.x ≤ 16384 ∧ r.y ≤ 16384
      then { d with sc := r, scHave := true } else d

def f64At (b : List UInt8) (i : Nat) : Float := Float.ofBits (UInt64.ofNat (le64 b i))

/-- Nearest pixel, halves up. -/
def roundPixel (v : Float) : Nat := (v+0.5).toUInt32.toNat

def opSetViewport : ComputeInnerOp where
  opcode := 0x82
  accepts := atLeast 48
  effect _ b _ d :=
    let originX := f64At b 0
    let originY := f64At b 8
    let width := f64At b 16
    let height := f64At b 24
    if 1.0 ≤ width ∧ width ≤ 16384.0 ∧ 1.0 ≤ height ∧ height ≤ 16384.0 ∧
        0.0 ≤ originX ∧ originX ≤ 16384.0 ∧ 0.0 ≤ originY ∧ originY ≤ 16384.0 then
      { d with
        vp := ⟨roundPixel originX, roundPixel originY, roundPixel width, roundPixel height⟩
        vpValid := true
        vpCurrent := true }
    else d

def computeInnerOpTable : List ComputeInnerOp :=
  [opSetVertexBufferOffset, opSetRenderPipelineState, opSetVertexBuffers, opDrawIndexedPrimitives16,
    opSetFragmentBuffers, opSetFragmentTextures, opSetScissorRect, opSetViewport,
    opSetFragmentSamplerStates, opRenderDescribeRenderPass, opRenderBarrierScope,
    opDrawInstancedPrimitives16, opDrawIndexedPrimitives64, opSetFragmentBufferOffset,
    opDrawPrimitives16, opDrawPrimitives64]

def findComputeInnerOpDesc (opcode : Nat) : Option ComputeInnerOp :=
  computeInnerOpTable.find? (·.opcode = opcode)

/-- The draw state of each slot of the task table. -/
structure DrawTable where
  entries : List DrawState
  size : entries.length = maxTasks

def DrawTable.empty : DrawTable := ⟨List.replicate maxTasks {}, by simp⟩

def DrawTable.set (t : DrawTable) (i : Nat) (d : DrawState) : DrawTable :=
  ⟨t.entries.set i d, by simp [t.size]⟩

def DrawTable.get (t : DrawTable) (i : Nat) : DrawState := t.entries.getD i {}

structure InnerWorld where
  world : World := {}
  draws : DrawTable := DrawTable.empty

/-- A change to slot `i` of the table. -/
def InnerWorld.updateSlot (w : InnerWorld) (i : Nat) (f : TaskEntry → DrawState → DrawState) :
    InnerWorld :=
  { w with draws := w.draws.set i (f (w.world.tasks.get i) (w.draws.get i)) }

/-- The entry a handler takes: `tasks[task_id]`, when that is in range and live. -/
def InnerWorld.onSlot (w : InnerWorld) (taskId : Nat) (f : TaskEntry → DrawState → DrawState) :
    InnerWorld :=
  if maxTasks ≤ taskId then w
  else if (w.world.tasks.get taskId).live = false then w
  else w.updateSlot taskId f

/-- lagfx_compute_inner_dispatch. -/
def computeInnerDispatch (env : InnerEnv) (w : InnerWorld) (taskId opcode : Nat)
    (body : List UInt8) : InnerWorld :=
  match findComputeInnerOpDesc opcode with
  | none => w
  | some op => if op.accepts body then w.onSlot taskId (op.effect env body) else w

/-- Only the compute dispatcher is handed a task id; the others write no task entry. -/
def innerDispatch (env : InnerEnv) (w : InnerWorld) (taskId : Nat) (call : InnerCall) : InnerWorld :=
  match call.target with
  | .compute => computeInnerDispatch env w taskId call.opcode call.body
  | .render | .info | .blit => w

/-- The id handed down: the id field of the entry found, or all ones. -/
def execTaskId (t : TaskTable) (taskId : Nat) : Nat :=
  match t.findTask taskId with
  | some i => (t.get i).id
  | none => 0xffffffff

/- The slot a task command clears: a new definition zeroes the slot it takes, a
   deletion the slot it frees; a live id that is defined again keeps its entry. -/
def TaskCmd.defines : TaskCmd → Option Nat
  | .defineTask2 hdr _ => if hdr.payloadSize < 24 then none else some (hdr.word 0)
  | .defineHostTask hdr => if hdr.payloadSize < 16 then none else some (hdr.word 0 >>> 1)
  | .deleteTask _ => none

def TaskCmd.deletes : TaskCmd → Option Nat
  | .deleteTask hdr => if hdr.payloadSize < 4 then none else some (hdr.word 0)
  | _ => none

def TaskCmd.clears (t : TaskTable) (c : TaskCmd) : Option Nat :=
  match c.defines with
  | some id => if (t.findTask id).isSome then none else t.allocTaskSlot
  | none => c.deletes.bind t.findTask

def DrawTable.clear (d : DrawTable) : Option Nat → DrawTable
  | none => d
  | some i => d.set i {}

inductive InnerEvent where
  | task (c : TaskCmd)
  | exec (taskId : Nat) (calls : List (InnerEnv × InnerCall))

/-- One command of the root channel, or the walk of one CmdExecIndirect2. -/
def innerWorldStep (dev : Device) (w : InnerWorld) : InnerEvent → InnerWorld
  | .task c => ⟨taskStep dev w.world c, w.draws.clear (c.clears w.world.tasks)⟩
  | .exec taskId calls =>
    calls.foldl (fun w c => innerDispatch c.1 w (execTaskId w.world.tasks taskId) c.2) w

/-- What a well-formed command means, wherever the entry of its task lies. -/
def innerEffect (env : InnerEnv) (call : InnerCall) : Option (TaskEntry → DrawState → DrawState) :=
  match call.target with
  | .compute =>
    match findComputeInnerOpDesc call.opcode with
    | none => none
    | some op => if op.accepts call.body then some (op.effect env call.body) else none
  | .render | .info | .blit => none

/-- The walk as it is meant: each well-formed command changes the entry in slot `i`. -/
def InnerWorld.updateAll (w : InnerWorld) (i : Nat) (calls : List (InnerEnv × InnerCall)) :
    InnerWorld :=
  calls.foldl (fun w c => ((innerEffect c.1 c.2).map (w.updateSlot i)).getD w) w

/- Whatever commands an exec for a live id walks, they change the entry with that id,
   each as it says, and no other. -/
def ActsOnOwnTask (dev : Device) (w : InnerWorld) : Prop :=
  ∀ taskId i, w.world.tasks.findTask taskId = some i →
    ∀ calls, innerWorldStep dev w (.exec taskId calls) = w.updateAll i calls

/- Every new task is defined while the first free slot is the one its id names. -/
def DefinedInPlace (w : InnerWorld) : InnerEvent → Prop
  | .task c => ∀ id, c.defines = some id → w.world.tasks.findTask id = none →
      ∀ i, w.world.tasks.allocTaskSlot = some i → i = id
  | .exec _ _ => True

theorem innerDispatch_eq (env : InnerEnv) (w : InnerWorld) (taskId : Nat) (call : InnerCall) :
    innerDispatch env w taskId call = ((innerEffect env call).map (w.onSlot taskId)).getD w := by
  rw [innerDispatch, innerEffect]
  cases call.target with
  | compute =>
    simp only [computeInnerDispatch]
    cases findComputeInnerOpDesc call.opcode with
    | none => rfl
    | some op => cases h : op.accepts call.body <;> simp [h]
  | render => rfl
  | info => rfl
  | blit => rfl

@[simp] theorem updateSlot_world (w : InnerWorld) (i : Nat) (f : TaskEntry → DrawState → DrawState) :
    (w.updateSlot i f).world = w.world := rfl

@[simp] theorem onSlot_world (w : InnerWorld) (taskId : Nat)
    (f : TaskEntry → DrawState → DrawState) : (w.onSlot taskId f).world = w.world := by
  rw [InnerWorld.onSlot]
  split_ifs <;> rfl

/-- No inner command moves a task. -/
@[simp] theorem innerDispatch_world (env : InnerEnv) (w : InnerWorld) (taskId : Nat)
    (call : InnerCall) : (innerDispatch env w taskId call).world = w.world := by
  rw [innerDispatch_eq]
  cases innerEffect env call <;> simp

@[simp] theorem exec_world (dev : Device) (taskId : Nat) (calls : List (InnerEnv × InnerCall)) :
    ∀ w : InnerWorld, (innerWorldStep dev w (.exec taskId calls)).world = w.world := by
  induction calls with
  | nil => exact fun _ => rfl
  | cons c cs ih =>
    intro w
    have h := ih (innerDispatch c.1 w (execTaskId w.world.tasks taskId) c.2)
    rw [innerDispatch_world] at h
    exact h

theorem findTask_lt {t : TaskTable} {id i : Nat} (h : t.findTask id = some i) : i < maxTasks := by
  obtain ⟨hi, -⟩ := List.findIdx?_eq_some_iff_getElem.mp h
  rwa [t.size] at hi

theorem execTaskId_of_find {t : TaskTable} {taskId i : Nat} (h : t.findTask taskId = some i) :
    execTaskId t taskId = taskId := by
  rw [execTaskId, h]
  exact (findTask_eq_some h).2.2

/-- Where a task lies in the slot its id names, a handler takes the right entry. -/
theorem onSlot_of_find {w : InnerWorld} {taskId : Nat}
    (h : w.world.tasks.findTask taskId = some taskId) (f : TaskEntry → DrawState → DrawState) :
    w.onSlot taskId f = w.updateSlot taskId f := by
  have hlt := findTask_lt h
  obtain ⟨-, hlive, -⟩ := findTask_eq_some h
  rw [InnerWorld.onSlot, if_neg (by omega), if_neg (by simp [hlive])]

theorem exec_eq_updateAll (dev : Device) (calls : List (InnerEnv × InnerCall)) (taskId : Nat) :
    ∀ w : InnerWorld, w.world.tasks.findTask taskId = some taskId →
      innerWorldStep dev w (.exec taskId calls) = w.updateAll taskId calls := by
  induction calls with
  | nil => exact fun _ _ => rfl
  | cons c cs ih =>
    intro w hw
    have hhead : innerDispatch c.1 w (execTaskId w.world.tasks taskId) c.2 =
        ((innerEffect c.1 c.2).map (w.updateSlot taskId)).getD w := by
      rw [innerDispatch_eq, execTaskId_of_find hw]
      cases innerEffect c.1 c.2 with
      | none => rfl
      | some f => exact onSlot_of_find hw f
    have h := ih (innerDispatch c.1 w (execTaskId w.world.tasks taskId) c.2)
      (by rw [innerDispatch_world]; exact hw)
    rw [hhead] at h
    calc innerWorldStep dev w (.exec taskId (c :: cs))
        = innerWorldStep dev (((innerEffect c.1 c.2).map (w.updateSlot taskId)).getD w)
            (.exec taskId cs) := by
          rw [← hhead]
          rfl
      _ = w.updateAll taskId (c :: cs) := h

theorem DrawTable.get_set {t : DrawTable} {i : Nat} (h : i < maxTasks) (j : Nat) (d : DrawState) :
    (t.set i d).get j = if i = j then d else t.get j := by
  have hi : i < t.entries.length := by rw [t.size]; exact h
  rw [DrawTable.get, DrawTable.set, List.getD_eq_getElem?_getD, List.getElem?_set]
  split_ifs with hj
  · rfl
  · rw [DrawTable.get, List.getD_eq_getElem?_getD]

/-- A handler leaves every slot but the one its task id names. -/
theorem onSlot_get_other (w : InnerWorld) {taskId i : Nat} (h : taskId ≠ i)
    (f : TaskEntry → DrawState → DrawState) : (w.onSlot taskId f).draws.get i = w.draws.get i := by
  rw [InnerWorld.onSlot]
  split_ifs with hge
  · rfl
  · rfl
  · rw [InnerWorld.updateSlot, DrawTable.get_set (by omega), if_neg h]

/-- An indexed draw of `count` indices, to see which entry a command reaches. -/
def probeCall (count : Nat) : InnerCall :=
  ⟨.compute, 0, 0x06, 0, putLe 4 count++List.replicate 20 0⟩

theorem probeCall_effect {count : Nat} (h : count < 2^32) :
    ∃ f, innerEffect {} (probeCall count) = some f ∧
      ∀ e d, (f e d).pendingDraw.indexCount = count := by
  have hbody : le32 (probeCall count).body 0 = count := by
    have hw := window_zero_self (putLe 4 count) (List.replicate 20 0)
    rw [putLe_length] at hw
    rw [le32, probeCall, hw, leNat_putLe_of_lt (by simpa using h)]
  have hok : opDrawIndexedPrimitives64.accepts (probeCall count).body = true := by
    simp [opDrawIndexedPrimitives64, atLeast, probeCall]
  refine ⟨opDrawIndexedPrimitives64.effect {} (probeCall count).body, ?_, fun e d => hbody⟩
  have hfind : findComputeInnerOpDesc 0x06 = some opDrawIndexedPrimitives64 := rfl
  rw [innerEffect]
  simp only [probeCall] at hok ⊢
  rw [hfind]
  simp only [hok, if_true]

/-- A task in another slot than its id names is not reached. -/
theorem slot_of_acts {dev : Device} {w : InnerWorld} (h : ActsOnOwnTask dev w) {taskId i : Nat}
    (hf : w.world.tasks.findTask taskId = some i) : i = taskId := by
  by_contra hne
  have hi := findTask_lt hf
  -- a count other than the one recorded, so that reaching the entry shows
  obtain ⟨count, hlt, hcount⟩ :
      ∃ count, count < 2^32 ∧ count ≠ (w.draws.get i).pendingDraw.indexCount := by
    by_cases h0 : (w.draws.get i).pendingDraw.indexCount = 0
    · exact ⟨1, by norm_num, by omega⟩
    · exact ⟨0, by norm_num, by omega⟩
  obtain ⟨f, heff, hshows⟩ := probeCall_effect hlt
  have hact := h taskId i hf [({}, probeCall count)]
  have hstep : innerWorldStep dev w (.exec taskId [({}, probeCall count)]) = w.onSlot taskId f := by
    simp only [innerWorldStep, List.foldl_cons, List.foldl_nil]
    rw [innerDispatch_eq, execTaskId_of_find hf, heff]
    rfl
  have hall : w.updateAll i [({}, probeCall count)] = w.updateSlot i f := by
    simp only [InnerWorld.updateAll, List.foldl_cons, List.foldl_nil, heff]
    rfl
  rw [hstep, hall] at hact
  have hget := congrArg (fun w : InnerWorld => w.draws.get i) hact
  simp only [onSlot_get_other w (Ne.symm hne)] at hget
  rw [InnerWorld.updateSlot, DrawTable.get_set hi, if_pos rfl] at hget
  exact hcount (by rw [hget, hshows])

/- Every live task lies in the slot its id names. -/
def Aligned (t : TaskTable) : Prop :=
  ∀ (i : Nat) (e : TaskEntry), t.entries[i]? = some e → e.live = true → e.id = i

theorem Aligned.acts {dev : Device} {w : InnerWorld} (h : Aligned w.world.tasks) :
    ActsOnOwnTask dev w := by
  intro taskId i hf calls
  obtain ⟨hg, hlive, hid⟩ := findTask_eq_some hf
  obtain rfl : taskId = i := by rw [← hid]; exact h i _ hg hlive
  exact exec_eq_updateAll dev calls taskId w hf

/-- All a task command can do to the table. -/
theorem taskStep_tasks (dev : Device) (w : World) (c : TaskCmd) :
    (∃ id i e new, c.defines = some id ∧ w.tasks.findOrAlloc id = some (i, e) ∧
      new.live = true ∧ new.id = id ∧ (taskStep dev w c).tasks = w.tasks.set i new) ∨
    (c.defines = none ∧ ∃ i, (taskStep dev w c).tasks = w.tasks.set i {}) ∨
    ((∀ id, c.defines = some id → w.tasks.findOrAlloc id = none) ∧
      (taskStep dev w c).tasks = w.tasks) := by
  cases c with
  | defineTask2 hdr env =>
    simp only [taskStep, TaskCmd.defines, defineTask2]
    by_cases hs : hdr.payloadSize < 24
    · simp [hs]
    simp only [hs, if_false]
    cases hf : w.tasks.findOrAlloc (hdr.word 0) with
    | none => exact Or.inr (Or.inr ⟨by rintro id ⟨⟩; exact hf, rfl⟩)
    | some p => exact Or.inl ⟨_, p.1, p.2, _, rfl, hf, rfl, rfl, rfl⟩
  | defineHostTask hdr =>
    simp only [taskStep, TaskCmd.defines, defineHostTask]
    by_cases hs : hdr.payloadSize < 16
    · simp [hs]
    simp only [hs, if_false]
    cases hf : w.tasks.findOrAlloc (hdr.word 0 >>> 1) with
    | none => exact Or.inr (Or.inr ⟨by rintro id ⟨⟩; exact hf, rfl⟩)
    | some p => exact Or.inl ⟨_, p.1, p.2, _, rfl, hf, rfl, rfl, rfl⟩
  | deleteTask hdr =>
    simp only [taskStep, TaskCmd.defines, deleteTask]
    by_cases hs : hdr.payloadSize < 4
    · simp [hs]
    simp only [hs, if_false]
    cases w.tasks.findTask (hdr.word 0) with
    | none => exact Or.inr (Or.inr ⟨fun id h => (by cases h), rfl⟩)
    | some i => exact Or.inr (Or.inl ⟨trivial, i, rfl⟩)

theorem Aligned.set {t : TaskTable} (h : Aligned t) {i : Nat} {new : TaskEntry}
    (hn : new.live = true → new.id = i) : Aligned (t.set i new) := by
  intro j e he hlive
  rw [TaskTable.set, List.getElem?_set] at he
  split_ifs at he with hij hlen
  · obtain rfl := Option.some.inj he
    rw [← hij]
    exact hn hlive
  · exact h j e he hlive

theorem findOrAlloc_fresh {t : TaskTable} {id : Nat} (h : t.findTask id = none) :
    t.findOrAlloc id = t.allocTaskSlot.map fun i => (i, {}) := by
  rw [TaskTable.findOrAlloc, h]

theorem innerWorldStep_aligned (dev : Device) (w : InnerWorld) (e : InnerEvent)
    (h : Aligned w.world.tasks) (hp : DefinedInPlace w e) :
    Aligned (innerWorldStep dev w e).world.tasks := by
  cases e with
  | exec taskId calls =>
    rw [exec_world]
    exact h
  | task c =>
    obtain ⟨id, i, e, new, hd, hf, -, hid, heq⟩ | ⟨-, i, heq⟩ | ⟨-, heq⟩ :=
      taskStep_tasks dev w.world c
    · rw [innerWorldStep, heq]
      refine h.set fun _ => ?_
      rw [hid]
      obtain ⟨hfind, -⟩ | ⟨hnone, -, -⟩ := findOrAlloc_cases hf
      · obtain ⟨hg, hlive, hget⟩ := findTask_eq_some hfind
        rw [← hget]
        exact h i _ hg hlive
      · rw [findOrAlloc_fresh hnone] at hf
        obtain ⟨j, hj, hji⟩ := Option.map_eq_some_iff.mp hf
        obtain ⟨rfl, -⟩ := Prod.mk.inj hji
        exact (hp id hd hnone j hj).symm
    · rw [innerWorldStep, heq]
      exact h.set fun hlive => by cases hlive
    · rw [innerWorldStep, heq]
      exact h

/-- A task defined out of place is found in a slot its id does not name. -/
theorem definedInPlace_of_acts (dev : Device) (w : InnerWorld) (e : InnerEvent)
    (h : ActsOnOwnTask dev (innerWorldStep dev w e)) : DefinedInPlace w e := by
  cases e with
  | exec taskId calls => trivial
  | task c =>
    intro id hd hnone i halloc
    have hfresh : w.world.tasks.findOrAlloc id = some (i, {}) := by
      rw [findOrAlloc_fresh hnone, halloc]
      rfl
    obtain ⟨id', i', e, new, hd', hf, hlive, hid, heq⟩ | ⟨hno, -⟩ | ⟨hfull, -⟩ :=
      taskStep_tasks dev w.world c
    · obtain rfl : id = id' := by simpa [hd] using hd'
      obtain rfl : i = i' := by
        rw [hfresh] at hf
        exact (Prod.mk.inj (Option.some.inj hf)).1
      have htasks : (innerWorldStep dev w (.task c)).world.tasks = w.world.tasks.set i new := heq
      obtain ⟨hi, -⟩ := List.findIdx?_eq_some_iff_getElem.mp halloc
      have hmem : id ∈ (w.world.tasks.set i new).liveIds :=
        mem_liveIds.mpr ⟨new, List.mem_set hi new, hlive, hid⟩
      cases hj : (w.world.tasks.set i new).findTask id with
      | none => exact absurd hmem (findTask_eq_none.mp hj)
      | some j =>
        obtain rfl : j = id := slot_of_acts h (by rw [htasks]; exact hj)
        obtain ⟨hg, hgl, hgid⟩ := findTask_eq_some hj
        by_contra hne
        rw [TaskTable.set, List.getElem?_set_ne hne] at hg
        exact findTask_eq_none.mp hnone (mem_liveIds.mpr ⟨_, List.mem_of_getElem? hg, hgl, hgid⟩)
    · rw [hno] at hd
      cases hd
    · rw [hfull id hd] at hfresh
      cases hfresh

/-- From device creation on, over any task commands and execs: inner commands act on the
task they were submitted for in every state exactly when every new task was defined while
the first free slot was the one its id names. -/
theorem inner_commands_on_own_task_iff (dev : Device) (es : List InnerEvent) :
    (∀ w ∈ visited (innerWorldStep dev) {} es, ActsOnOwnTask dev w) ↔
      AllSteps (innerWorldStep dev) DefinedInPlace {} es := by
  have hstart : Aligned (InnerWorld.world {}).tasks := by
    intro i e he hlive
    obtain ⟨-, rfl⟩ : i < maxTasks ∧ ({} : TaskEntry) = e := by
      simpa [TaskTable.empty, List.getElem?_replicate] using he
    cases hlive
  exact visited_iff (innerWorldStep dev) (fun w hw => Aligned.acts hw)
    (fun w e hw => ⟨definedInPlace_of_acts dev w e,
      fun hp => (innerWorldStep_aligned dev w e hw hp).acts⟩)
    (innerWorldStep_aligned dev) es {} hstart

def definesTask (id : Nat) : InnerEvent :=
  .task (.defineTask2 (CmdHeader.of 0x00 1 (putLe 4 id++List.replicate 20 0)) {})

/-- Task 1 is defined first and takes slot 0, task 0 then takes slot 1: a draw of three
indices for task 1 is recorded with task 0. With task 7 alone, a draw for it is dropped. -/
theorem draw_on_other_task :
    (¬ ∀ w ∈ visited (innerWorldStep {}) {} [definesTask 1, definesTask 0], ActsOnOwnTask {} w) ∧
    (¬ ∀ w ∈ visited (innerWorldStep {}) {} [definesTask 7], ActsOnOwnTask {} w) ∧
    (let w := innerWorldStep {} (innerWorldStep {} {} (definesTask 1)) (definesTask 0)
     let w' := innerWorldStep {} w (.exec 1 [({}, probeCall 3)])
     w.world.tasks.findTask 1 = some 0 ∧ w.world.tasks.findTask 0 = some 1 ∧
       (w'.draws.get 0).pendingDraw.indexCount = 0 ∧ (w'.draws.get 1).pendingDraw.indexCount = 3) := by
  refine ⟨fun h => ?_, fun h => ?_, ?_⟩
  · have hw := h (innerWorldStep {} (innerWorldStep {} {} (definesTask 1)) (definesTask 0))
      (by simp [visited])
    have hslot : 0 = 1 := slot_of_acts hw (by decide)
    cases hslot
  · have hw := h (innerWorldStep {} {} (definesTask 7)) (by simp [visited])
    have hslot : 0 = 7 := slot_of_acts hw (by decide)
    cases hslot
  · decide

end Lagfx
