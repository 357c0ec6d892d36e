import Lagfx.TaskTranslate

/-! Object resolution through the task's slot heap. Every function comes in two
versions: as the source has it, one translation and one flat read a record, and
`…Virtual`, the same result computed from what the page-walked read returns. -/
namespace Lagfx
open ByteMemory

def apvTypeFunction : Nat := 0x06
def apvTypePipeline : Nat := 0x07

def slotVaFor (heapPfn objectId : Nat) : Nat := heapPfn*2^12+objectId*12

/-- Type and `bytes_va` of a 12-byte slot. -/
def slotFields (slot : List UInt8) : Nat × Nat := (byteAt slot 0, le64 slot 4)

def readSlotFields (s : State) (slotGpa : Nat) : Option (Nat × Nat) :=
  (s.readMemory slotGpa 12).map slotFields

def mtlbMagic : List UInt8 := [0x4d, 0x54, 0x4c, 0x42]
def mtlbMaxLen : Nat := 16*1024*1024

structure FunctionBytes where
  gpa : Nat
  len : Nat
  va : Nat
deriving DecidableEq, Repr

/- The length is fetched by a read of its own, at +16 behind the header. -/
def lookupFunctionBytes (s : State) (task : TaskEntry) (funcObjectId : Nat) :
    Option FunctionBytes :=
  if task.heapPfn = 0 then none
  else do
    let slotGpa ← taskTranslate s task (slotVaFor task.heapPfn funcObjectId)
    let slot ← readSlotFields s slotGpa
    if slot.1 ≠ apvTypeFunction then none
    else
      let bytesGpa ← taskTranslate s task slot.2
      let nextBytes ← s.readMemory bytesGpa 8
      let nextVa := le64 nextBytes 0
      if nextVa = 0 then none
      else
        let nextGpa ← taskTranslate s task nextVa
        let mtlbHeader ← s.readMemory nextGpa 24
        if window mtlbHeader 0 4 ≠ mtlbMagic then none
        else
          let lenBytes ← s.readMemory (nextGpa+16) 4
          let mtlbLen := le32 lenBytes 0
          if mtlbLen = 0 ∨ mtlbMaxLen < mtlbLen then none
          else some ⟨nextGpa, mtlbLen, nextVa⟩

structure ObjectData where
  type : Nat
  dataVa : Nat
  dataGpa : Nat
deriving DecidableEq, Repr

/-- Where the data of an object is, 0 when unmapped. -/
def dataGpaOf (s : State) (task : TaskEntry) (bytesVa : Nat) : Nat :=
  if bytesVa ≠ 0 then (taskTranslate s task bytesVa).getD 0 else 0

def resolveObjectData (s : State) (task : TaskEntry) (objectId : Nat) : Option ObjectData :=
  if task.heapPfn = 0 then none
  else do
    let slotGpa ← taskTranslate s task (slotVaFor task.heapPfn objectId)
    let slot ← readSlotFields s slotGpa
    some ⟨slot.1, slot.2, dataGpaOf s task slot.2⟩

def lookupSlotType (s : State) (task : TaskEntry) (objectId : Nat) : Option Nat :=
  if task.heapPfn = 0 then none
  else do
    let slotGpa ← taskTranslate s task (slotVaFor task.heapPfn objectId)
    let b ← s.readMemory slotGpa 1
    some (byteAt b 0)

/- The path the three pipeline readers share: slot, type check, `size` bytes of
   the serialized descriptor. -/
def pipelineBlob (s : State) (task : TaskEntry) (pipelineObjectId size : Nat) :
    Option (List UInt8) :=
  if task.heapPfn = 0 then none
  else do
    let slotGpa ← taskTranslate s task (slotVaFor task.heapPfn pipelineObjectId)
    let slot ← readSlotFields s slotGpa
    if slot.1 ≠ apvTypePipeline then none
    else
      let bytesGpa ← taskTranslate s task slot.2
      s.readMemory bytesGpa size

/-- The descriptor's own length when plausible, else the whole window. -/
def blobLimit (blob : List UInt8) (size : Nat) : Nat :=
  let total := le32 blob 4
  if 16 ≤ total ∧ total ≤ size then total else size

/- `left` is the number of positions still to look at, so that the loop stops
   where `i + 1 < limit` fails. -/
def scanFunctionRefs (desc : List UInt8) (isFunction : Nat → Bool) (cap : Nat) :
    Nat → Nat → List Nat → List Nat
  | 0, _, out => out
  | left+1, i, out =>
    if cap ≤ out.length then out
    else
      let candidate := byteAt desc (i+1)
      if byteAt desc i ≠ 0x04 ∨ candidate = 0 ∨ isFunction candidate = false ∨
          candidate ∈ out then
        scanFunctionRefs desc isFunction cap left (i+1) out
      else scanFunctionRefs desc isFunction cap left (i+1) (out++[candidate])

def scanDescriptorFunctionRefs (desc : List UInt8) (limit : Nat) (isFunction : Nat → Bool)
    (cap : Nat) : List Nat :=
  scanFunctionRefs desc isFunction cap (limit-1) 0 []

def lookupPipelineFunctionRefList (s : State) (task : TaskEntry) (pipelineObjectId cap : Nat) :
    List Nat :=
  match pipelineBlob s task pipelineObjectId 384 with
  | none => []
  | some desc =>
    scanDescriptorFunctionRefs desc (blobLimit desc 384)
      (fun ref => lookupSlotType s task ref == some apvTypeFunction) cap

structure PsoVtxAttr where
  fmt : Nat
  off : Nat
  bufidx : Nat
deriving DecidableEq, Repr

/-- The 18-byte token `01 04 fmt 02 04 off 03 04 bufidx` at `i`, if plausible. -/
def vertexAttrAt (blob : List UInt8) (i : Nat) : Option PsoVtxAttr :=
  let attr : PsoVtxAttr := ⟨le32 blob (i+2), le32 blob (i+8), le32 blob (i+14)⟩
  if byteAt blob i = 0x01 ∧ byteAt blob (i+1) = 0x04 ∧ byteAt blob (i+6) = 0x02 ∧
      byteAt blob (i+7) = 0x04 ∧ byteAt blob (i+12) = 0x03 ∧ byteAt blob (i+13) = 0x04 ∧
      attr.fmt ≠ 0 ∧ attr.fmt ≤ 64 ∧ attr.off ≤ 240 ∧ attr.bufidx ≤ 30 then some attr
  else none

/- A token with a known offset is passed over byte by byte; a new one is skipped
   as a whole, stored or not. -/
def scanVertexAttrs (blob : List UInt8) (limit cap : Nat) : Nat → Nat → List PsoVtxAttr →
    List PsoVtxAttr
  | 0, _, out => out
  | rounds+1, i, out =>
    if limit < i+18 then out
    else
      match vertexAttrAt blob i with
      | none => scanVertexAttrs blob limit cap rounds (i+1) out
      | some attr =>
        if out.any (fun a => a.off == attr.off) then
          scanVertexAttrs blob limit cap rounds (i+1) out
        else
          scanVertexAttrs blob limit cap rounds (i+18)
            (if out.length < cap then out++[attr] else out)

/-- The inner loop of the sort, on the sorted part read from its end. -/
def insertAttr (t : PsoVtxAttr) : List PsoVtxAttr → List PsoVtxAttr
  | [] => [t]
  | x :: xs => if x.off > t.off then x :: insertAttr t xs else t :: x :: xs

def sortAttrs (out : List PsoVtxAttr) : List PsoVtxAttr :=
  (out.foldl (fun sorted t => insertAttr t sorted) []).reverse

def vertexAttrsOf (blob : List UInt8) (cap : Nat) : List PsoVtxAttr :=
  sortAttrs (scanVertexAttrs blob (blobLimit blob 512) cap 512 16 [])

def parsePsoVertexAttrs (s : State) (task : TaskEntry) (pipelineObjectId cap : Nat) :
    List PsoVtxAttr :=
  match pipelineBlob s task pipelineObjectId 512 with
  | none => []
  | some blob => vertexAttrsOf blob cap

/-- Count one more hit of `val`; at most 64 values are told apart. -/
def countHit (val : Nat) : List (Nat × Nat) → Nat → List (Nat × Nat)
  | [], room => if 0 < room then [(val, 1)] else []
  | (v, n) :: rest, room =>
    if v = val then (v, n+1) :: rest else (v, n) :: countHit val rest (room-1)

def scanVertexStrides (blob : List UInt8) (limit : Nat) : Nat → Nat → List (Nat × Nat) →
    List (Nat × Nat)
  | 0, _, hits => hits
  | rounds+1, i, hits =>
    if limit < i+6 then hits
    else if byteAt blob i ≠ 0x04 then scanVertexStrides blob limit rounds (i+1) hits
    else
      let val := le32 blob (i+1)
      let tag := byteAt blob (i+5)
      scanVertexStrides blob limit rounds (i+6)
        (if (tag = 0x02 ∨ tag = 0x01) ∧ 8 ≤ val ∧ val ≤ 256 ∧ val%4 = 0 then countHit val hits 64
         else hits)

/-- The most frequent value, the larger one on a tie. -/
def bestStride (hits : List (Nat × Nat)) : Nat :=
  (hits.foldl (fun best c =>
    if c.2 > best.2 ∨ (c.2 = best.2 ∧ c.1 > best.1) then c else best) (0, 0)).1

def vertexStrideOf (blob : List UInt8) : Nat :=
  bestStride (scanVertexStrides blob (blobLimit blob 512) 512 16 [])

def parsePsoVertexStride (s : State) (task : TaskEntry) (pipelineObjectId : Nat) : Nat :=
  match pipelineBlob s task pipelineObjectId 512 with
  | none => 0
  | some blob => vertexStrideOf blob

def lookupFunctionBytesVirtual (s : State) (task : TaskEntry) (funcObjectId : Nat) :
    Option FunctionBytes :=
  if task.heapPfn = 0 then none
  else do
    let slot ← taskReadVirtual s task (slotVaFor task.heapPfn funcObjectId) 12
    if (slotFields slot).1 ≠ apvTypeFunction then none
    else
      let nextBytes ← taskReadVirtual s task (slotFields slot).2 8
      let nextVa := le64 nextBytes 0
      if nextVa = 0 then none
      else
        let nextGpa ← taskTranslate s task nextVa
        let mtlbHeader ← taskReadVirtual s task nextVa 24
        if window mtlbHeader 0 4 ≠ mtlbMagic then none
        else
          let mtlbLen := le32 mtlbHeader 16
          if mtlbLen = 0 ∨ mtlbMaxLen < mtlbLen then none
          else some ⟨nextGpa, mtlbLen, nextVa⟩

def resolveObjectDataVirtual (s : State) (task : TaskEntry) (objectId : Nat) :
    Option ObjectData :=
  if task.heapPfn = 0 then none
  else do
    let slot ← taskReadVirtual s task (slotVaFor task.heapPfn objectId) 12
    some ⟨(slotFields slot).1, (slotFields slot).2, dataGpaOf s task (slotFields slot).2⟩

def lookupSlotTypeVirtual (s : State) (task : TaskEntry) (objectId : Nat) : Option Nat :=
  if task.heapPfn = 0 then none
  else do
    let b ← taskReadVirtual s task (slotVaFor task.heapPfn objectId) 1
    some (byteAt b 0)

def pipelineBlobVirtual (s : State) (task : TaskEntry) (pipelineObjectId size : Nat) :
    Option (List UInt8) :=
  if task.heapPfn = 0 then none
  else do
    let slot ← taskReadVirtual s task (slotVaFor task.heapPfn pipelineObjectId) 12
    if (slotFields slot).1 ≠ apvTypePipeline then none
    else taskReadVirtual s task (slotFields slot).2 size

def lookupPipelineFunctionRefListVirtual (s : State) (task : TaskEntry)
    (pipelineObjectId cap : Nat) : List Nat :=
  match pipelineBlobVirtual s task pipelineObjectId 384 with
  | none => []
  | some desc =>
    scanDescriptorFunctionRefs desc (blobLimit desc 384)
      (fun ref => lookupSlotTypeVirtual s task ref == some apvTypeFunction) cap

def parsePsoVertexAttrsVirtual (s : State) (task : TaskEntry) (pipelineObjectId cap : Nat) :
    List PsoVtxAttr :=
  match pipelineBlobVirtual s task pipelineObjectId 512 with
  | none => []
  | some blob => vertexAttrsOf blob cap

def parsePsoVertexStrideVirtual (s : State) (task : TaskEntry) (pipelineObjectId : Nat) : Nat :=
  match pipelineBlobVirtual s task pipelineObjectId 512 with
  | none => 0
  | some blob => vertexStrideOf blob

/-- The object's slot can be read flat. -/
def SlotFlat (s : State) (task : TaskEntry) (objectId : Nat) : Prop :=
  FlatReadable s task (slotVaFor task.heapPfn objectId) 12

/-- So can the `size` bytes the slot of an object of this type points to. -/
def DataFlat (s : State) (task : TaskEntry) (objectId type size : Nat) : Prop :=
  ∀ slot, taskReadVirtual s task (slotVaFor task.heapPfn objectId) 12 = some slot →
    (slotFields slot).1 = type → FlatReadable s task (slotFields slot).2 size

/-- And the metallib header behind the first word of a function object. -/
def HeaderFlat (s : State) (task : TaskEntry) (objectId : Nat) : Prop :=
  ∀ slot next, taskReadVirtual s task (slotVaFor task.heapPfn objectId) 12 = some slot →
    (slotFields slot).1 = apvTypeFunction → taskReadVirtual s task (slotFields slot).2 8 = some next →
      FlatReadable s task (le64 next 0) 24

section
variable {s : State} {task : TaskEntry} {id : Nat}

/-- A slot read by the source is the slot at that task address. -/
theorem slot_virtual (hf : SlotFlat s task id) {gpa : Nat} {fields : Nat × Nat}
    (ht : taskTranslate s task (slotVaFor task.heapPfn id) = some gpa)
    (hr : readSlotFields s gpa = some fields) :
    ∃ slot, taskReadVirtual s task (slotVaFor task.heapPfn id) 12 = some slot ∧
      slotFields slot = fields := by
  obtain ⟨b, hb, hfields⟩ := Option.map_eq_some_iff.mp hr
  exact ⟨b, taskReadVirtual_flat (by norm_num) hf ht hb, hfields⟩

theorem resolveObjectData_virtual (hf : SlotFlat s task id) {r : ObjectData}
    (h : resolveObjectData s task id = some r) : resolveObjectDataVirtual s task id = some r := by
  rw [resolveObjectData] at h
  split_ifs at h with h0
  obtain ⟨gpa, ht, h⟩ := Option.bind_eq_some_iff.mp h
  obtain ⟨fields, hs, h⟩ := Option.bind_eq_some_iff.mp h
  obtain ⟨slot, hv, rfl⟩ := slot_virtual hf ht hs
  simp only [resolveObjectDataVirtual, h0, if_false, hv]
  exact h

theorem pipelineBlob_virtual {size : Nat} (hn : 0 < size) (hf : SlotFlat s task id)
    (hd : DataFlat s task id apvTypePipeline size) {b : List UInt8} (h : pipelineBlob s task id size = some b) :
    pipelineBlobVirtual s task id size = some b := by
  rw [pipelineBlob] at h
  split_ifs at h with h0
  obtain ⟨gpa, ht, h⟩ := Option.bind_eq_some_iff.mp h
  obtain ⟨fields, hs, h⟩ := Option.bind_eq_some_iff.mp h
  obtain ⟨slot, hv, rfl⟩ := slot_virtual hf ht hs
  split_ifs at h with htype
  obtain ⟨bytesGpa, htb, h⟩ := Option.bind_eq_some_iff.mp h
  have htype' : (slotFields slot).1 = apvTypePipeline := by simpa using htype
  have hb := taskReadVirtual_flat hn (hd slot hv htype') htb h
  simpa [pipelineBlobVirtual, h0, hv, htype'] using hb

theorem lookupSlotType_virtual (ref : Nat) :
    lookupSlotType s task ref = lookupSlotTypeVirtual s task ref := by
  have hp : slotVaFor task.heapPfn ref%pageBytes+1 ≤ pageBytes := by
    have := Nat.mod_lt (slotVaFor task.heapPfn ref) (show 0 < pageBytes by decide)
    omega
  rw [lookupSlotType, lookupSlotTypeVirtual]
  rw [taskReadVirtual_one_page s task (by norm_num) hp]
  cases taskTranslate s task (slotVaFor task.heapPfn ref) <;> rfl

/-- The separate read of the length sees the header's own bytes. -/
theorem le32_length_field {gpa : Nat} {header lenBytes : List UInt8}
    (hh : s.readMemory gpa 24 = some header) (hl : s.readMemory (gpa+16) 4 = some lenBytes) :
    le32 lenBytes 0 = le32 header 16 := by
  rw [readMemory_some hh, readMemory_some hl]
  simp only [le32]
  rw [window_read _ _ _ _ _ (by norm_num), window_read _ _ _ _ _ (by norm_num), Nat.add_zero]

theorem lookupFunctionBytes_virtual (hf : SlotFlat s task id) (hd : DataFlat s task id apvTypeFunction 8)
    (hh : HeaderFlat s task id) {r : FunctionBytes} (h : lookupFunctionBytes s task id = some r) :
    lookupFunctionBytesVirtual s task id = some r := by
  rw [lookupFunctionBytes] at h
  split_ifs at h with h0
  obtain ⟨gpa, ht, h⟩ := Option.bind_eq_some_iff.mp h
  obtain ⟨fields, hs, h⟩ := Option.bind_eq_some_iff.mp h
  obtain ⟨slot, hv, rfl⟩ := slot_virtual hf ht hs
  split_ifs at h with htype
  obtain ⟨bytesGpa, htb, h⟩ := Option.bind_eq_some_iff.mp h
  obtain ⟨next, hn, h⟩ := Option.bind_eq_some_iff.mp h
  have htype' : (slotFields slot).1 = apvTypeFunction := by simpa using htype
  have hnv := taskReadVirtual_flat (by norm_num) (hd slot hv htype') htb hn
  dsimp only at h
  split_ifs at h with hnz
  obtain ⟨nextGpa, htn, h⟩ := Option.bind_eq_some_iff.mp h
  obtain ⟨header, hhd, h⟩ := Option.bind_eq_some_iff.mp h
  have hhv := taskReadVirtual_flat (by norm_num) (hh slot next hv htype' hnv) htn hhd
  split_ifs at h with hmagic
  obtain ⟨lenBytes, hlen, h⟩ := Option.bind_eq_some_iff.mp h
  rw [le32_length_field hhd hlen] at h
  have hmagic' : window header 0 4 = mtlbMagic := by simpa using hmagic
  simpa [lookupFunctionBytesVirtual, h0, hv, htype', hnv, hnz, htn, hhv, hmagic'] using h

theorem lookupPipelineFunctionRefList_virtual (hf : SlotFlat s task id)
    (hd : DataFlat s task id apvTypePipeline 384) (cap : Nat)
    (h : lookupPipelineFunctionRefList s task id cap ≠ []) :
    lookupPipelineFunctionRefListVirtual s task id cap =
      lookupPipelineFunctionRefList s task id cap := by
  rw [lookupPipelineFunctionRefList] at h ⊢
  cases hb : pipelineBlob s task id 384 with
  | none => simp [hb] at h
  | some blob =>
    have hv := pipelineBlob_virtual (by norm_num) hf hd hb
    simp only [lookupPipelineFunctionRefListVirtual, hv, lookupSlotType_virtual]

theorem parsePsoVertexAttrs_virtual (hf : SlotFlat s task id) (hd : DataFlat s task id apvTypePipeline 512)
    (cap : Nat) (h : parsePsoVertexAttrs s task id cap ≠ []) :
    parsePsoVertexAttrsVirtual s task id cap = parsePsoVertexAttrs s task id cap := by
  rw [parsePsoVertexAttrs] at h ⊢
  cases hb : pipelineBlob s task id 512 with
  | none => simp [hb] at h
  | some blob => simp only [parsePsoVertexAttrsVirtual, pipelineBlob_virtual (by norm_num) hf hd hb]

theorem parsePsoVertexStride_virtual (hf : SlotFlat s task id) (hd : DataFlat s task id apvTypePipeline 512)
    (h : parsePsoVertexStride s task id ≠ 0) :
    parsePsoVertexStrideVirtual s task id = parsePsoVertexStride s task id := by
  rw [parsePsoVertexStride] at h ⊢
  cases hb : pipelineBlob s task id 512 with
  | none => simp [hb] at h
  | some blob => simp only [parsePsoVertexStrideVirtual, pipelineBlob_virtual (by norm_num) hf hd hb]

end

/- A one-level page table: VA pages 1, 2 and 3 at physical pages 20, 30 and 40.
   Object 0 is a function, object 1 a pipeline of stride 48, and the slot of
   object 341 lies across VA pages 1 and 2. -/
def resolverMem : Nat → UInt8 :=
  write (write (write (write (write (write (write (write (fun _ => 0)
    (16*4096) (putLe 4 17++putLe 4 1))
    (17*4096+4) (putLe 4 (2^31+20)++putLe 4 (2^31+30)++putLe 4 (2^31+40)))
    (20*4096) ([6, 0, 0, 0]++putLe 8 0x2100++[7, 0, 0, 0]++putLe 8 0x2200))
    (20*4096+4092) [6, 0, 0, 0])
    (30*4096) (putLe 8 0x3000))
    (30*4096+0x100) (putLe 8 0x3000))
    (30*4096+0x204) (putLe 4 28++putLe 8 0++[4, 48, 0, 0, 0, 2]))
    (40*4096) (mtlbMagic++putLe 4 0++putLe 8 0++putLe 4 100)

def resolverState : State := { mem := resolverMem }
def resolverTask : TaskEntry := { rootPagePfn := 16, heapPfn := 1, live := true }

end Lagfx
