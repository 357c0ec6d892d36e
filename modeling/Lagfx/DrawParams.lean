import Mathlib.Data.List.Induction
import Lagfx.VertexNames

/-! The parameters of the pending draw of a task: what each draw command stores of its body,
what it leaves of the draws before, and when two runs that end in the same draw agree. -/
namespace Lagfx
open ByteMemory

/-- The draw commands; a 0x00 is recorded but not emitted by default. -/
inductive DrawCommand where
  | drawPrimitives64
  | emitted (op : DrawOp)
deriving DecidableEq, Repr

namespace DrawCommand

def handler : DrawCommand → ComputeInnerOp
  | drawPrimitives64 => opDrawPrimitives64
  | emitted op => op.handler

def all : List DrawCommand :=
  [drawPrimitives64, emitted .drawPrimitives16, emitted .drawInstancedPrimitives16,
   emitted .drawIndexedPrimitives64, emitted .drawIndexedPrimitives16]

def ofOpcode (opcode : Nat) : Option DrawCommand := all.find? (·.handler.opcode = opcode)

/- What the body says, in the layout that the environment selects. -/

def indexed : DrawCommand → Bool
  | drawPrimitives64 => false
  | emitted op => op.indexed

/-- Two bodies have no field for the primitive type. -/
def primitive (body : List UInt8) : DrawCommand → Option Nat
  | emitted .drawPrimitives16 => some (le16 body 0)
  | emitted .drawInstancedPrimitives16 => some (le16 body 6)
  | emitted .drawIndexedPrimitives16 => some (le16 body 0)
  | emitted .drawIndexedPrimitives64 => none
  | drawPrimitives64 => none

def count (env : InnerEnv) (body : List UInt8) : DrawCommand → Nat
  | drawPrimitives64 =>
    match env.dc64Field with
    | none => if 0 < le16 body 6 then le16 body 6 else le32 body 4
    | some which =>
      if which = 0 then le32 body 0 else if which = 6 then le16 body 6 else le32 body 4
  | emitted .drawPrimitives16 =>
    if env.legacyDraw01 then le32 body 4 else DrawOp.drawPrimitives16.count body
  | emitted op => op.count body

/-- The start of an unindexed draw is its base vertex, as a signed word. -/
def baseVertex (env : InnerEnv) (body : List UInt8) : DrawCommand → Int
  | emitted .drawPrimitives16 =>
    if env.legacyDraw01 then (BitVec.ofNat 32 (le32 body 0)).toInt
    else DrawOp.drawPrimitives16.vertexStart body
  | emitted op => op.vertexStart body
  | drawPrimitives64 => 0

/-- No instances stand for one. -/
def instances (body : List UInt8) : DrawCommand → Nat
  | emitted op => if op.instances body = 0 then 1 else op.instances body
  | drawPrimitives64 => 1

/-- Type, buffer and offset of the index list. -/
def indexSource (body : List UInt8) : DrawCommand → Nat × Nat × Nat
  | emitted op => op.indexSource body
  | drawPrimitives64 => (0, 0, 0)

end DrawCommand

/-- The parameters that the draw path is handed; index parameters for indexed draws only. -/
structure DrawParams where
  indexed : Bool
  primitiveType : Nat
  count : Nat
  baseVertex : Int
  instanceCount : Nat
  index : Option (Nat × Nat × Nat)
deriving DecidableEq, Repr

def PendingDraw.params (p : PendingDraw) : DrawParams where
  indexed := p.indexed
  primitiveType := p.primitiveType
  count := p.indexCount
  baseVertex := p.baseVertex
  instanceCount := p.instanceCount
  index := if p.indexed = true then some (p.indexType, p.indexBufferRef, p.indexBufferOffset)
    else none

/-- The parameters are those encoded in the body. -/
structure DrawCommand.Encodes (c : DrawCommand) (env : InnerEnv) (body : List UInt8)
    (p : DrawParams) : Prop where
  indexed : p.indexed = c.indexed
  primitive : ∀ v, c.primitive body = some v → p.primitiveType = v
  count : p.count = c.count env body
  baseVertex : p.baseVertex = c.baseVertex env body
  instances : p.instanceCount = c.instances body
  index : p.index = if c.indexed = true then some (c.indexSource body) else none

/-- The draw that a call records. -/
def drawOf (call : InnerCall) : Option DrawCommand :=
  match call.target with
  | .compute => (DrawCommand.ofOpcode call.opcode).filter fun c => c.handler.accepts call.body
  | .render | .info | .blit => none

/-- Emitting a draw leaves what is recorded of it. -/
def InnerEnv.KeepsDraw (env : InnerEnv) : Prop :=
  ∀ task count d, (env.emitPendingDraw task count d).pendingDraw = d.pendingDraw

/-- Commands on the entry of a live task, from any state of it. -/
structure InnerRun (taskId : Nat) where
  start : InnerWorld
  calls : List (InnerEnv × InnerCall)
  inTable : taskId < maxTasks
  live : (start.world.tasks.get taskId).live = true
  keeps : ∀ c ∈ calls, c.1.KeepsDraw

namespace InnerRun
variable {taskId : Nat}

def world (r : InnerRun taskId) : InnerWorld :=
  r.calls.foldl (fun w c => innerDispatch c.1 w taskId c.2) r.start

def pendingDraw (r : InnerRun taskId) : PendingDraw := (r.world.draws.get taskId).pendingDraw

/-- The pending draw after one more call. -/
def drawAfter (r : InnerRun taskId) (env : InnerEnv) (call : InnerCall) : PendingDraw :=
  ((innerDispatch env r.world taskId call).draws.get taskId).pendingDraw

end InnerRun

/-- What a draw stores of its index list besides the buffer: the 0x06 stores nothing. -/
def DrawCommand.storedIndex (body : List UInt8) : DrawCommand → Option (Nat × Nat)
  | .emitted .drawIndexedPrimitives16 => some (le16 body 2, le16 body 10)
  | _ => none

/-- The pending draw that a command records over an earlier one. -/
def DrawCommand.store (c : DrawCommand) (env : InnerEnv) (body : List UInt8) (p : PendingDraw) :
    PendingDraw where
  valid := true
  indexed := c.indexed
  primitiveType := (c.primitive body).getD p.primitiveType
  indexCount := c.count env body
  instanceCount := c.instances body
  baseVertex := c.baseVertex env body
  firstInstance := 0
  indexBufferRef := if c.indexed = true then (c.indexSource body).2.1 else p.indexBufferRef
  indexType := ((c.storedIndex body).getD (p.indexType, p.indexBufferOffset)).1
  indexBufferOffset := ((c.storedIndex body).getD (p.indexType, p.indexBufferOffset)).2

theorem le16_lt (body : List UInt8) (i : Nat) : le16 body i < 2^16 := by
  have hlen : (window body i 2).length ≤ 2 := by simp [window]
  calc le16 body i < 256^(window body i 2).length := leNat_lt _
    _ ≤ 256^2 := Nat.pow_le_pow_right (by decide) hlen

/-- A start of 16 bits is not negative. -/
theorem start16 (body : List UInt8) (i : Nat) :
    (BitVec.ofNat 32 (le16 body i)).toInt = le16 body i := by
  have hlt := le16_lt body i
  have hword : (BitVec.ofNat 32 (le16 body i)).toNat = le16 body i := by
    rw [BitVec.toNat_ofNat, Nat.mod_eq_of_lt (by omega)]
  rw [BitVec.toInt_eq_toNat_of_lt (by omega), hword]

theorem effect_store (c : DrawCommand) {env : InnerEnv} (hk : env.KeepsDraw) (body : List UInt8)
    (task : TaskEntry) (d : DrawState) :
    (c.handler.effect env body task d).pendingDraw = c.store env body d.pendingDraw := by
  cases c with
  | drawPrimitives64 =>
    by_cases hd : env.draw64 = true
    · simp only [DrawCommand.handler, opDrawPrimitives64, hd, if_true]
      exact (hk _ _ _).trans rfl
    · simp only [DrawCommand.handler, opDrawPrimitives64, hd]
      rfl
  | emitted op =>
    cases op with
    | drawPrimitives16 =>
      refine (hk _ _ _).trans ?_
      simp only [DrawCommand.store, DrawCommand.baseVertex, DrawCommand.count]
      cases env.legacyDraw01 with
      | true => rfl
      | false =>
        simp only [Bool.false_eq_true, if_false, start16]
        rfl
    | drawInstancedPrimitives16 => exact (hk _ _ _).trans rfl
    | drawIndexedPrimitives64 => exact (hk _ _ _).trans rfl
    | drawIndexedPrimitives16 => exact (hk _ _ _).trans rfl

/-- The other commands leave the pending draw. -/
theorem effect_other {op : ComputeInnerOp} (hop : op ∈ computeInnerOpTable)
    (hno : DrawCommand.ofOpcode op.opcode = none) (env : InnerEnv) (body : List UInt8)
    (task : TaskEntry) (d : DrawState) :
    (op.effect env body task d).pendingDraw = d.pendingDraw := by
  simp only [computeInnerOpTable, List.mem_cons, List.not_mem_nil, or_false] at hop
  obtain rfl | rfl | rfl | rfl | rfl | rfl | rfl | rfl | rfl | rfl | rfl | rfl | rfl | rfl | rfl |
    rfl := hop
  all_goals first | rfl | exact absurd hno (by decide) | skip
  · simp only [opSetScissorRect]
    split_ifs <;> rfl
  · simp only [opSetViewport]
    split_ifs <;> rfl

theorem find_of_draw {opcode : Nat} {c : DrawCommand} (h : DrawCommand.ofOpcode opcode = some c) :
    findComputeInnerOpDesc opcode = some c.handler := by
  have hop : c.handler.opcode = opcode := by simpa using List.find?_some h
  rw [← hop]
  cases c with
  | drawPrimitives64 => rfl
  | emitted op => cases op <;> rfl

/-- One call on the entry of a live task. -/
theorem dispatch_pendingDraw {w : InnerWorld} {taskId : Nat} (hlt : taskId < maxTasks)
    (hlive : (w.world.tasks.get taskId).live = true) {env : InnerEnv} (hk : env.KeepsDraw)
    (call : InnerCall) :
    ((innerDispatch env w taskId call).draws.get taskId).pendingDraw =
      ((drawOf call).map fun c => c.store env call.body (w.draws.get taskId).pendingDraw).getD
        (w.draws.get taskId).pendingDraw := by
  have hslot : ∀ f, (w.onSlot taskId f).draws.get taskId =
      f (w.world.tasks.get taskId) (w.draws.get taskId) := by
    intro f
    rw [InnerWorld.onSlot, if_neg (Nat.not_le.2 hlt), if_neg (by simp [hlive]),
      InnerWorld.updateSlot, DrawTable.get_set hlt, if_pos rfl]
  rw [innerDispatch, drawOf]
  cases call.target with
  | render => rfl
  | info => rfl
  | blit => rfl
  | compute =>
    simp only [computeInnerDispatch]
    cases hc : DrawCommand.ofOpcode call.opcode with
    | some c =>
      rw [find_of_draw hc]
      simp only [Option.filter_some]
      cases c.handler.accepts call.body with
      | false => rfl
      | true =>
        simp only [if_true, hslot, effect_store c hk]
        rfl
    | none =>
      cases hfind : findComputeInnerOpDesc call.opcode with
      | none => rfl
      | some op =>
        have hopcode : op.opcode = call.opcode := by simpa using List.find?_some hfind
        simp only
        split_ifs
        · rw [hslot, effect_other (List.mem_of_find?_eq_some hfind) (hopcode ▸ hc)]
          rfl
        · rfl

namespace InnerRun
variable {taskId : Nat}

/-- The primitive type that the draws of a run leave. -/
def leftPrimitive (r : InnerRun taskId) : Nat :=
  ((r.calls.filterMap fun c => (drawOf c.2).bind fun k => k.primitive c.2.body).getLast?).getD
    (r.start.draws.get taskId).pendingDraw.primitiveType

/-- The index type and offset that the draws of a run leave. -/
def leftIndex (r : InnerRun taskId) : Nat × Nat :=
  ((r.calls.filterMap fun c => (drawOf c.2).bind fun k => k.storedIndex c.2.body).getLast?).getD
    ((r.start.draws.get taskId).pendingDraw.indexType,
      (r.start.draws.get taskId).pendingDraw.indexBufferOffset)

end InnerRun

/-- Folding the calls keeps the task table. -/
theorem foldl_dispatch_world {taskId : Nat} (calls : List (InnerEnv × InnerCall)) (w : InnerWorld) :
    (calls.foldl (fun w c => innerDispatch c.1 w taskId c.2) w).world = w.world := by
  induction calls generalizing w with
  | nil => rfl
  | cons c calls ih => rw [List.foldl_cons, ih, innerDispatch_world]

/-- What a field holds that some draws store, after a run. -/
theorem foldl_field {taskId : Nat} {α : Type} (field : PendingDraw → α)
    (stores : DrawCommand → List UInt8 → Option α)
    (hstep : ∀ (c : DrawCommand) env body p,
      field (c.store env body p) = (stores c body).getD (field p))
    {w : InnerWorld} (hlt : taskId < maxTasks) (hlive : (w.world.tasks.get taskId).live = true)
    (calls : List (InnerEnv × InnerCall)) (hk : ∀ c ∈ calls, c.1.KeepsDraw) :
    field ((calls.foldl (fun w c => innerDispatch c.1 w taskId c.2) w).draws.get
        taskId).pendingDraw =
      ((calls.filterMap fun c => (drawOf c.2).bind fun k => stores k c.2.body).getLast?).getD
        (field (w.draws.get taskId).pendingDraw) := by
  induction calls using List.reverseRecOn with
  | nil => rfl
  | append_singleton calls c ih =>
    have hold := ih fun c' hc' => hk c' (List.mem_append_left _ hc')
    have hlive' : ((calls.foldl (fun w c => innerDispatch c.1 w taskId c.2) w).world.tasks.get
        taskId).live = true := by
      rw [foldl_dispatch_world]
      exact hlive
    rw [List.foldl_append, List.foldl_cons, List.foldl_nil, List.filterMap_append,
      List.getLast?_append, dispatch_pendingDraw hlt hlive' (hk c (by simp))]
    cases hd : drawOf c.2 with
    | none =>
      rw [List.filterMap_cons_none (by rw [hd]; rfl)]
      exact hold
    | some k =>
      rw [Option.map_some, Option.getD_some, hstep, hold]
      cases hs : stores k c.2.body with
      | none =>
        rw [List.filterMap_cons_none (by rw [hd]; exact hs)]
        rfl
      | some a =>
        rw [List.filterMap_cons_some (by rw [hd]; exact hs)]
        rfl

namespace InnerRun
variable {taskId : Nat} (r : InnerRun taskId)

theorem primitiveType_left : r.pendingDraw.primitiveType = r.leftPrimitive :=
  foldl_field PendingDraw.primitiveType (fun c body => c.primitive body) (fun _ _ _ _ => rfl)
    r.inTable r.live r.calls r.keeps

theorem index_left : (r.pendingDraw.indexType, r.pendingDraw.indexBufferOffset) = r.leftIndex :=
  foldl_field (fun p => (p.indexType, p.indexBufferOffset)) (fun c body => c.storedIndex body)
    (fun _ _ _ _ => rfl) r.inTable r.live r.calls r.keeps

theorem drawAfter_eq {env : InnerEnv} (hk : env.KeepsDraw) {call : InnerCall} {c : DrawCommand}
    (hc : drawOf call = some c) : r.drawAfter env call = c.store env call.body r.pendingDraw := by
  have hlive : (r.world.world.tasks.get taskId).live = true := by
    rw [world, foldl_dispatch_world]
    exact r.live
  rw [drawAfter, dispatch_pendingDraw r.inTable hlive hk, hc]
  rfl

end InnerRun

/-- What the draws before have left is what the body of this one says. -/
def DrawCommand.LeftOwn {taskId : Nat} (c : DrawCommand) (body : List UInt8)
    (r r' : InnerRun taskId) : Prop :=
  match c with
  | drawPrimitives64 => r.leftPrimitive = r'.leftPrimitive
  | emitted .drawIndexedPrimitives64 => r.leftPrimitive = r'.leftPrimitive ∧
      r.leftIndex = (le32 body 4, le64 body 12) ∧ r'.leftIndex = (le32 body 4, le64 body 12)
  | emitted _ => True

/-- The parameters after two runs that end in the same draw are those of its body. -/
def OwnParams {taskId : Nat} (c : DrawCommand) (call : InnerCall) (env env' : InnerEnv)
    (r r' : InnerRun taskId) : Prop :=
  (r.drawAfter env call).params = (r'.drawAfter env' call).params ∧
    c.Encodes env call.body (r.drawAfter env call).params

/-- The variables that select a layout are those of one process. -/
def SameLayout (env env' : InnerEnv) : Prop :=
  env.legacyDraw01 = env'.legacyDraw01 ∧ env.dc64Field = env'.dc64Field

theorem store_congr {env env' : InnerEnv} (h : SameLayout env env') (c : DrawCommand)
    (body : List UInt8) (p : PendingDraw) : c.store env body p = c.store env' body p := by
  have hcount : c.count env body = c.count env' body := by
    cases c with
    | drawPrimitives64 => simp only [DrawCommand.count, h.2]
    | emitted op => cases op <;> simp only [DrawCommand.count, h.1]
  have hbase : c.baseVertex env body = c.baseVertex env' body := by
    cases c with
    | drawPrimitives64 => rfl
    | emitted op => cases op <;> simp only [DrawCommand.baseVertex, h.1]
  rw [DrawCommand.store, DrawCommand.store, hcount, hbase]

/-- What is stored is what the body encodes, but for the index list of a 0x06. -/
theorem store_encodes_iff (c : DrawCommand) (env : InnerEnv) (body : List UInt8)
    (p : PendingDraw) : c.Encodes env body (c.store env body p).params ↔
      (c = .emitted .drawIndexedPrimitives64 →
        p.indexType = le32 body 4 ∧ p.indexBufferOffset = le64 body 12) := by
  have hprimitive : ∀ v, c.primitive body = some v →
      (c.store env body p).params.primitiveType = v := by
    intro v hv
    exact (congrArg (fun o => o.getD p.primitiveType) hv).trans rfl
  constructor
  · intro h hc
    subst hc
    have hindex := Option.some.inj h.index
    exact ⟨congrArg Prod.fst hindex, congrArg (fun x => x.2.2) hindex⟩
  · intro h
    refine ⟨rfl, hprimitive, rfl, rfl, rfl, ?_⟩
    cases c with
    | drawPrimitives64 => rfl
    | emitted op =>
      cases op with
      | drawIndexedPrimitives64 =>
        obtain ⟨htype, hoffset⟩ := h rfl
        exact congrArg some (Prod.ext htype (Prod.ext rfl hoffset))
      | _ => rfl

/-- Two runs that end in the same accepted draw leave the same parameters, those of its body,
exactly when the draw stores them all or the draws before have left them so. -/
theorem draw_params_own_iff {taskId : Nat} (r r' : InnerRun taskId) {env env' : InnerEnv}
    (hk : env.KeepsDraw) (hk' : env'.KeepsDraw) (hsame : SameLayout env env') {call : InnerCall}
    {c : DrawCommand} (hc : drawOf call = some c) :
    OwnParams c call env env' r r' ↔ c.LeftOwn call.body r r' := by
  rw [OwnParams, r.drawAfter_eq hk hc, r'.drawAfter_eq hk' hc, ← store_congr hsame,
    store_encodes_iff]
  cases c with
  | drawPrimitives64 =>
    rw [DrawCommand.LeftOwn, ← r.primitiveType_left, ← r'.primitiveType_left]
    constructor
    · exact fun h => congrArg DrawParams.primitiveType h.1
    · intro h
      refine ⟨?_, fun heq => by cases heq⟩
      exact congrArg (fun t => (⟨false, t, _, _, _, none⟩ : DrawParams)) h
  | emitted op =>
    cases op with
    | drawIndexedPrimitives64 =>
      rw [DrawCommand.LeftOwn, ← r.primitiveType_left, ← r'.primitiveType_left, ← r.index_left,
        ← r'.index_left]
      constructor
      · intro h
        obtain ⟨hparams, hown⟩ := h
        obtain ⟨htype, hoffset⟩ := hown rfl
        have hindex := Option.some.inj (congrArg DrawParams.index hparams)
        have htypes : r.pendingDraw.indexType = r'.pendingDraw.indexType := congrArg Prod.fst hindex
        have hoffsets : r.pendingDraw.indexBufferOffset = r'.pendingDraw.indexBufferOffset :=
          congrArg (fun x => x.2.2) hindex
        refine ⟨congrArg DrawParams.primitiveType hparams, Prod.ext htype hoffset, ?_⟩
        exact Prod.ext (htypes.symm.trans htype) (hoffsets.symm.trans hoffset)
      · intro h
        obtain ⟨hprim, hleft, hleft'⟩ := h
        have hindex := hleft.trans hleft'.symm
        refine ⟨?_, fun _ => ⟨congrArg Prod.fst hleft, congrArg Prod.snd hleft⟩⟩
        exact congrArg₂ (fun t (x : Nat × Nat) =>
          (⟨true, t, _, _, _, some (x.1, _, x.2)⟩ : DrawParams)) hprim hindex
    | _ => exact iff_of_true ⟨rfl, fun heq => by cases heq⟩ trivial

/-- Task 0 is live; nothing is drawn yet. -/
def drawWorld : InnerWorld where
  world := { tasks := TaskTable.empty.set 0 { live := true } }

def drawRun (calls : List InnerCall) : InnerRun 0 where
  start := drawWorld
  calls := calls.map fun call => ({}, call)
  inTable := by decide
  live := rfl
  keeps := by
    intro c hc
    obtain ⟨call, -, rfl⟩ := List.mem_map.1 hc
    exact fun _ _ _ => rfl

/-- A 0x07 of six triangle indices. -/
def indexed16Call (indexType offset : Nat) : InnerCall :=
  ⟨.compute, 0, 0x07, 0, putLe 2 3++putLe 2 indexType++putLe 4 9++putLe 2 6++putLe 2 offset⟩

/-- A 0x06 of six indices. -/
def indexed64Call (indexType offset : Nat) : InnerCall :=
  ⟨.compute, 0, 0x06, 0, putLe 4 6++putLe 4 indexType++putLe 4 9++putLe 8 offset++putLe 4 0⟩

/-- A 0x06 behind draws that have left its index type and offset. -/
theorem indexed64_own : OwnParams (.emitted .drawIndexedPrimitives64) (indexed64Call 0 16) {} {}
    (drawRun [indexed16Call 0 16]) (drawRun [indexed16Call 1 32, indexed16Call 0 16]) :=
  (draw_params_own_iff _ _ (fun _ _ _ => rfl) (fun _ _ _ => rfl) ⟨rfl, rfl⟩ (by decide)).2 (by
    refine ⟨?_, ?_, ?_⟩ <;> decide)

/-- A 0x06 and a 0x00, each as the first draw and behind a 0x07: the 0x06 has the index type
and offset of the draw before, and both have its primitive type. -/
theorem draw_params_left :
    drawOf (indexed64Call 1 64) = some (.emitted .drawIndexedPrimitives64) ∧
    ¬OwnParams (.emitted .drawIndexedPrimitives64) (indexed64Call 1 64) {} {} (drawRun [])
      (drawRun [indexed16Call 0 16]) ∧
    drawOf ⟨.compute, 0, 0x00, 0, List.replicate 20 1⟩ = some .drawPrimitives64 ∧
    ¬OwnParams .drawPrimitives64 ⟨.compute, 0, 0x00, 0, List.replicate 20 1⟩ {} {} (drawRun [])
      (drawRun [indexed16Call 0 16]) := by
  refine ⟨by decide, fun h => ?_, by decide, fun h => ?_⟩
  · exact absurd h.1 (by decide)
  · exact absurd h.1 (by decide)

end Lagfx
