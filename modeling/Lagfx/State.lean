import Lagfx.Lib.ByteMemory

/-! Protocol state of the paravirtualised GPU: ring registers, task, FIFO and
resource tables, the IOSurface heap, guest memory as the shell callbacks see it.
Words are natural numbers; a width is written out where a wrap can occur. -/
namespace Lagfx
open ByteMemory

def maxTasks : Nat := 64
def maxFifos : Nat := 32
def maxChannels : Nat := 16
def maxResources : Nat := 256
def maxDisplays : Nat := 4
def cmdHeaderBytes : Nat := 12
def maxCmdBytes : Nat := 4096
def drainMaxCmds : Nat := 128
def maxRingRead : Nat := 4096

def u32 (n : Nat) : Nat := n % 2^32
def u64 (n : Nat) : Nat := n % 2^64

/-- `a - b` on unsigned 32-bit words. -/
def sub32 (a b : Nat) : Nat := (a+2^32-b) % 2^32

def byteAt (b : List UInt8) (i : Nat) : Nat := (b.getD i 0).toNat
def le16 (b : List UInt8) (i : Nat) : Nat := leNat (window b i 2)
def le32 (b : List UInt8) (i : Nat) : Nat := leNat (window b i 4)
def le64 (b : List UInt8) (i : Nat) : Nat := leNat (window b i 8)

/- Handles and host pointers are numbers, NULL is `none`. -/
structure TaskEntry where
  id : Nat := 0
  rootPagePfn : Nat := 0
  baseVa : Nat := 0
  length : Nat := 0
  shellTask : Option Nat := none
  heapPfn : Nat := 0
  heapSize : Nat := 0
  live : Bool := false
  activeObjects : List Nat := []
deriving DecidableEq, Repr

/-- The fixed task array; its length cannot change. -/
structure TaskTable where
  entries : List TaskEntry
  size : entries.length = maxTasks

def TaskTable.empty : TaskTable := ⟨List.replicate maxTasks {}, by simp⟩

def TaskTable.set (t : TaskTable) (i : Nat) (e : TaskEntry) : TaskTable :=
  ⟨t.entries.set i e, by simp [t.size]⟩

def TaskTable.get (t : TaskTable) (i : Nat) : TaskEntry := t.entries.getD i {}

structure FifoEntry where
  id : Nat := 0
  live : Bool := false
deriving DecidableEq, Repr

structure FifoTable where
  entries : List FifoEntry
  size : entries.length = maxFifos

def FifoTable.empty : FifoTable := ⟨List.replicate maxFifos {}, by simp⟩

def FifoTable.set (t : FifoTable) (i : Nat) (e : FifoEntry) : FifoTable :=
  ⟨t.entries.set i e, by simp [t.size]⟩

inductive ResourceType where
  | unknown | buffer | texture | pipeline | sampler | heap | depthStencilState
deriving DecidableEq, Repr

structure ResourceEntry where
  ref : Nat
  type : ResourceType
  taskId : Nat
  hostHandle : Option Nat := none
  gpuAddr : Nat := 0
  size : Nat := 0
  backingDirty : Bool := false
deriving DecidableEq, Repr

def ResourceEntry.key (e : ResourceEntry) : Nat × Nat := (e.ref, e.taskId)

/-- The registry: at most `maxResources` entries, no (ref, task) twice. -/
structure Registry where
  entries : List ResourceEntry
  bound : entries.length ≤ maxResources
  nodup : (entries.map ResourceEntry.key).Nodup

def Registry.empty : Registry := ⟨[], by simp, by simp⟩

/-- A Vulkan-backed IOSurface. -/
structure Iosurface where
  width : Nat
  height : Nat
  pixelFormat : Nat
  refcount : Nat
deriving DecidableEq, Repr

structure Display where
  rtReady : Bool := false
  rtWidth : Nat := 0
  rtHeight : Nat := 0
  scanoutGpa : Nat := 0
  scanoutLength : Nat := 0
  scanoutWidth : Nat := 0
  scanoutHeight : Nat := 0
  scanoutValid : Bool := false
deriving DecidableEq, Repr

structure BackingUpdate where
  ref : Nat
  addr : Nat
deriving DecidableEq, Repr

/- What the command handlers own. `backings` maps a host pointer to the object
   living there, `none` once destroyed. `createdTasks` and `destroyedTasks` are
   the shell's own record of its create_task and destroy_task calls. -/
structure World where
  tasks : TaskTable := TaskTable.empty
  fifos : FifoTable := FifoTable.empty
  resources : Registry := Registry.empty
  backings : Nat → Option Iosurface := fun _ => none
  frameBlitQueue : List Nat := []
  backingUpdate : List BackingUpdate := []
  bigMaps : List (Nat × Nat) := []
  displays : Nat → Option Display := fun _ => none
  displaySsGpa : Nat → Nat := fun _ => 0
  displaySsInstalled : Nat := 0
  submitProbeCount : Nat := 0
  createdTasks : List Nat := []
  destroyedTasks : List Nat := []

/- Fixed at device creation: which optional parts the embedding provides. -/
structure Device where
  vk : Bool := true
  createTask : Bool := true
  destroyTask : Bool := true
  globalSurf : Bool := false
deriving DecidableEq, Repr

structure State where
  ringBasePfn : Nat := 0
  ringBaseGpa : Nat := 0
  ringSize : Nat := 0
  ringStartOffset : Nat := 0
  ringSharedPagePfn : Nat := 0
  readPtr : Nat := 0
  writePtr : Nat := 0
  currentChanId : Nat := 0
  ringArmed : Bool := false
  pendingStampsBitmask : Nat := 0
  lastCompletedStamp : Nat := 0
  totalCmdsSeen : Nat := 0
  totalCmdsCompleted : Nat := 0
  unknownOpcodeCount : Nat := 0
  scratchExecHeapSize : Nat := 0
  dev : Device := {}
  readOk : Nat → Nat → Bool := fun _ _ => true
  writeOk : Nat → Nat → Bool := fun _ _ => true
  mem : Nat → UInt8 := fun _ => 0
  world : World := {}

/- shell.read_memory and shell.write_memory. Whether a transfer succeeds is the
   shell's choice, given by the range. -/
def State.readMemory (s : State) (gpa len : Nat) : Option (List UInt8) :=
  if s.readOk gpa len then some (read s.mem gpa len) else none

def State.writeMemory (s : State) (gpa : Nat) (bs : List UInt8) : State :=
  if s.writeOk gpa bs.length then { s with mem := write s.mem gpa bs } else s

/- The parsed 12-byte header. `payload` is the `payloadSize` bytes that follow
   it; `beyond` is what lies behind them in the scratch buffer, left over from
   earlier commands. -/
structure CmdHeader where
  opcode : Nat
  argCount8b : Nat := 0
  length : Nat
  stamp : Nat
  payloadSize : Nat
  payload : List UInt8
  beyond : List UInt8 := []
deriving DecidableEq, Repr

/-- The header of a command with this payload and nothing stale behind it. -/
def CmdHeader.of (opcode stamp : Nat) (payload : List UInt8) : CmdHeader where
  opcode := opcode
  length := cmdHeaderBytes+payload.length
  stamp := stamp
  payloadSize := payload.length
  payload := payload

def CmdHeader.word (h : CmdHeader) (i : Nat) : Nat := le32 (h.payload ++ h.beyond) i
def CmdHeader.quad (h : CmdHeader) (i : Nat) : Nat := le64 (h.payload ++ h.beyond) i

inductive InnerTarget where
  | compute | render | info | blit
deriving DecidableEq, Repr

/-- One call of an inner dispatcher; `off` locates the body in the buffer read. -/
structure InnerCall where
  target : InnerTarget
  encoderType : Nat
  opcode : Nat
  off : Nat
  body : List UInt8
deriving DecidableEq, Repr

/-- What an inner dispatcher is handed besides the command itself. -/
structure ExecContext where
  taskSlot : Option Nat
  taskId : Nat
  outerResources : List UInt8
  resourceCount : Nat
  stamp : Nat
deriving DecidableEq, Repr

/- What happens outside the modelled code while one command runs: the results
   of the shell and Vulkan calls it makes (create_task returns a handle and
   fills the base pointer), the frame a present reads back, the stale scratch
   bytes behind the payload, and the inner opcode tables. -/
structure Env where
  createTask : Option Nat × Nat := (none, 0)
  iosurfaceCreate : Option Nat := none
  frame : List UInt8 := []
  beyond : List UInt8 := []
  reallocOk : Nat → Bool := fun _ => true
  inner : ExecContext → InnerCall → World × (Nat → UInt8) → World × (Nat → UInt8) := fun _ _ w => w

theorem writeMemory_mem_outside (s : State) (gpa : Nat) (bs : List UInt8) (x : Nat)
    (h : x < gpa ∨ gpa+bs.length ≤ x) : (s.writeMemory gpa bs).mem x = s.mem x := by
  rw [State.writeMemory]
  split
  · exact write_outside s.mem gpa bs x h
  · rfl

theorem le32_lt (b : List UInt8) (i : Nat) : le32 b i < 2^32 := by
  have h := leNat_lt (window b i 4)
  have hl : (window b i 4).length ≤ 4 := by simp [window]
  calc le32 b i < 256 ^ (window b i 4).length := h
    _ ≤ 256 ^ 4 := Nat.pow_le_pow_right (by decide) hl
    _ = 2^32 := by norm_num

end Lagfx
