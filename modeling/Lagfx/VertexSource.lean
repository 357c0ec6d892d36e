import Lagfx.PlacementReads
import Lagfx.InnerOps

/-! The bytes and the strides that a draw's vertices are taken with. -/
namespace Lagfx

/-- A read with the zeros that the rest of its buffer is filled with. -/
def padded (read : Nat → Nat → Option (List UInt8)) (a n : Nat) : Option (List UInt8) :=
  (read a n).map fun b => b++List.replicate (n-b.length) 0

/-- What a gather fills, from the start of its buffer on. -/
def gatheredBytes (read : Nat → Nat → Option (List UInt8)) (want off : Nat)
    (ranges : List PlacementRange) : List UInt8 :=
  ((readGathered (padded read) want ranges 0 0 off 0).map PlacementRead.bytes).flatten

/-- The placement walk of `lagfx_read_vtx_source`. -/
def vtxPlacement (s : State) (task : TaskEntry) (ref off want mode : Nat) : List UInt8 :=
  match resolveObjectData s task ref with
  | none => []
  | some o =>
    if o.dataVa = 0 then []
    else match taskReadVirtual s task o.dataVa 64 with
      | none => []
      | some desc =>
        gatheredBytes (if mode = 1 then taskReadVirtual s task else readResourceBacking s task)
          want off (placementRanges desc)

/-- `lagfx_read_vtx_source`: the bytes it fills, none when it fails. -/
def readVtxSource (s : State) (task : TaskEntry) (ref off want mode : Nat) : List UInt8 :=
  if mode = 0 then
    match (s.world.backingUpdate.take 64).find? fun u => decide (u.ref = ref) with
    | none => vtxPlacement s task ref off want mode
    | some u => (taskReadVirtual s task (u64 (u.addr+off)) want).getD
        (vtxPlacement s task ref off want mode)
  else vtxPlacement s task ref off want mode

/-- The width in bytes of each stage-in attribute. -/
def attrSizes (pp : PendingPipeline) : List Nat :=
  (pp.vtxInputs.take maxVtxInputs).map fun a => a.2*4

/-- Up to the next multiple of 8. -/
def round8 (n : Nat) : Nat := (n+7)/8*8

/-- The stride of the vertex stream: that of the pipeline descriptor where it is sane. -/
def streamStride (pp : PendingPipeline) : Nat :=
  let sum := round8 (attrSizes pp).sum
  let stride := if sum ≤ pp.vtxStride ∧ pp.vtxStride ≤ 256 then pp.vtxStride else sum
  if stride = 0 then 48 else stride

def BindingSlot.bound (b : BindingSlot) : Bool := b.valid && decide (b.ref ≠ 0)

def DrawState.vertexSlot (d : DrawState) (i : Nat) : BindingSlot := d.vertexBuffers.getD i {}

/-- `lagfx_vtx_multi_stream`: two attributes of two floats, and slots 0 and 1 bound. -/
def vtxMultiStream (d : DrawState) : Bool :=
  match d.pendingPipeline.vtxInputs with
  | a::b::_ => decide (a.2 = 2 ∧ b.2 = 2) && (d.vertexSlot 0).bound && (d.vertexSlot 1).bound
  | _ => false

/-- `lagfx_vtx_claimed_mask`: the slots of the vertex shader's own buffers. -/
def vtxClaimed (pp : PendingPipeline) (slot : Nat) : Bool :=
  (pp.spvBindings.take 16).any fun b =>
    decide (b.kind = .storageBuffer ∧ b.no < fragBindingBase ∧ b.metal = slot)

theorem round8_ge (n : Nat) : n ≤ round8 n := by
  rw [round8]
  omega

theorem streamStride_pos (pp : PendingPipeline) : 0 < streamStride pp := by
  rw [streamStride]
  split_ifs
  · decide
  · omega
  · decide
  · omega

section
variable {s : State} {task : TaskEntry}

theorem padded_length {read : Nat → Nat → Option (List UInt8)} (hread : BackingRead s task read)
    {a n : Nat} {b : List UInt8} (ha : a < 2^64) (h : padded read a n = some b) :
    b.length = n := by
  obtain ⟨c, hc, rfl⟩ := Option.map_eq_some_iff.1 h
  have hle := hread.length_le ha hc
  rw [List.length_append, List.length_replicate]
  omega

/-- A gather fills no more than it wants. -/
theorem readGathered_length {read : Nat → Nat → Option (List UInt8)}
    (hread : ∀ {a n b}, a < 2^64 → read a n = some b → b.length = n) {want : Nat}
    {ranges : List PlacementRange} {e acc logical filled : Nat} (hfilled : filled ≤ want) :
    filled+((readGathered read want ranges e acc logical filled).map
      PlacementRead.bytes).flatten.length ≤ want := by
  induction ranges generalizing e acc logical filled with
  | nil => exact hfilled
  | cons q ranges ih =>
    rw [readGathered]
    split_ifs with hdone hin
    · exact hfilled
    · simp only
      generalize hchunk : (if sub64 q.size (sub64 logical acc) < want-filled then
        u32 (sub64 q.size (sub64 logical acc)) else want-filled) = chunk
      have hle : chunk ≤ want-filled := by
        rw [← hchunk]
        split_ifs with hlast
        · exact (Nat.mod_le _ _).trans (Nat.le_of_lt hlast)
        · exact Nat.le_refl _
      cases hb : read (q.addr (sub64 logical acc)) chunk with
      | none => exact hfilled
      | some b =>
        have hlen := hread (addr_lt q _) hb
        have hrest := @ih (e+1) (u64 (acc+q.size)) (u64 (logical+chunk)) (filled+chunk) (by omega)
        simp only [List.map_cons, List.flatten_cons, List.length_append, hlen]
        omega
    · exact ih hfilled

theorem vtxPlacement_length (s : State) (task : TaskEntry) (ref off want mode : Nat) :
    (vtxPlacement s task ref off want mode).length ≤ want := by
  have hbacking : BackingRead s task
      (if mode = 1 then taskReadVirtual s task else readResourceBacking s task) := by
    split_ifs
    · exact taskReadVirtual_backing s task
    · exact readResourceBacking_backing s task
  have hgather (ranges : List PlacementRange) : (gatheredBytes (if mode = 1 then
      taskReadVirtual s task else readResourceBacking s task) want off ranges).length ≤ want := by
    have := @readGathered_length _ (padded_length hbacking) want ranges 0 0 off 0
      (Nat.zero_le want)
    rw [Nat.zero_add] at this
    exact this
  rw [vtxPlacement]
  split
  · exact Nat.zero_le want
  · rename_i o _
    by_cases hva : o.dataVa = 0
    · rw [if_pos hva]
      exact Nat.zero_le want
    · rw [if_neg hva]
      split
      · exact Nat.zero_le want
      · exact hgather _

theorem readVtxSource_length (s : State) (task : TaskEntry) (ref off want mode : Nat) :
    (readVtxSource s task ref off want mode).length ≤ want := by
  have hplaced := vtxPlacement_length s task ref off want mode
  rw [readVtxSource]
  split_ifs
  · split
    · exact hplaced
    · rename_i u _
      cases hb : taskReadVirtual s task (u64 (u.addr+off)) want with
      | none => exact hplaced
      | some b =>
        exact (readVirtualChunks_paged (Nat.mod_lt _ (by decide)) (Nat.le_refl want) hb).1.le
  · exact hplaced

end
end Lagfx
