import Lagfx.TaskTranslate

/-! The inner command-buffer walker of CmdExecIndirect2: the read of a resource's
buffer, the segment locator, the walk over segments and the walk over the
commands of one segment. A cursor into the buffer is the list of bytes from it
on, with its offset. -/
namespace Lagfx
open ByteMemory

def infoOpFirst : Nat := 0x1c2
def infoOpLast : Nat := 0x1d0

/-- The dispatcher for a command of this segment; encoder type 4 is shared. -/
def innerTarget (encoderType op16 : Nat) : Option InnerTarget :=
  if encoderType = 0 ∨ encoderType = 1 then some .compute
  else if encoderType = 2 then some .render
  else if encoderType = 4 then
    if infoOpFirst ≤ op16 ∧ op16 ≤ infoOpLast then some .info else some .blit
  else none

/- One round of the inner loop: the call it makes and the bytes it consumes,
   `none` where the loop stops. -/
def innerStep (encoderType : Nat) (rest : List UInt8) (off : Nat) :
    Option (Option InnerCall × Nat) :=
  if rest.length < 8 then none
  else
    let opcode := le32 rest 0
    let totalLen := le32 rest 4
    if totalLen < 8 ∨ rest.length < totalLen then none
    else
      some ((innerTarget encoderType (opcode%2^16)).map fun target =>
        { target := target
          encoderType := encoderType
          opcode := opcode%2^16
          off := off+8
          body := window rest 8 (totalLen-8) }, totalLen)

theorem innerStep_advances {encoderType off n : Nat} {rest : List UInt8} {call : Option InnerCall}
    (h : innerStep encoderType rest off = some (call, n)) : 8 ≤ n ∧ n ≤ rest.length := by
  rw [innerStep] at h
  split_ifs at h with h8
  dsimp only at h
  split_ifs at h with hbad
  obtain ⟨-, rfl⟩ := Prod.mk.inj (Option.some.inj h)
  omega

def innerWalkSegment (encoderType : Nat) (rest : List UInt8) (off : Nat) : List InnerCall :=
  match _h : innerStep encoderType rest off with
  | none => []
  | some (call, n) => call.toList++innerWalkSegment encoderType (rest.drop n) (off+n)
termination_by rest.length
decreasing_by
  have := innerStep_advances _h
  simp only [List.length_drop]
  omega

/-- One round of the segment loop; a preamble is skipped with its u64. -/
def segmentStep (rest : List UInt8) (off : Nat) : Option (List InnerCall × Nat) :=
  if rest.length < 8 then none
  else
    let segmentSize := le32 rest 0
    let encoderType := byteAt rest 4
    if encoderType = 5 then
      if rest.length < 24 then none else some ([], 16)
    else if encoderType ∉ [0, 1, 2, 4] ∨ segmentSize < 8 ∨ rest.length < segmentSize then none
    else
      some (innerWalkSegment encoderType (window rest 8 (segmentSize-8)) (off+8), segmentSize)

/-- A round either skips a preamble or walks one whole segment. -/
theorem segmentStep_cases {off n : Nat} {rest : List UInt8} {calls : List InnerCall}
    (h : segmentStep rest off = some (calls, n)) :
    (24 ≤ rest.length ∧ calls = [] ∧ n = 16) ∨
    (8 ≤ n ∧ n ≤ rest.length ∧
      calls = innerWalkSegment (byteAt rest 4) (window rest 8 (n-8)) (off+8)) := by
  rw [segmentStep] at h
  dsimp only at h
  split_ifs at h with h8 h5 h24 hbad
  · obtain ⟨rfl, rfl⟩ := Prod.mk.inj (Option.some.inj h)
    exact Or.inl ⟨by omega, rfl, rfl⟩
  · obtain ⟨rfl, rfl⟩ := Prod.mk.inj (Option.some.inj h)
    simp only [not_or] at hbad
    exact Or.inr ⟨by omega, by omega, rfl⟩

theorem segmentStep_advances {off n : Nat} {rest : List UInt8} {calls : List InnerCall}
    (h : segmentStep rest off = some (calls, n)) : 8 ≤ n ∧ n ≤ rest.length := by
  obtain ⟨hl, -, rfl⟩ | ⟨h8, hl, -⟩ := segmentStep_cases h
  · omega
  · exact ⟨h8, hl⟩

def walkSegments (rest : List UInt8) (off : Nat) : List InnerCall :=
  match _h : segmentStep rest off with
  | none => []
  | some (calls, n) => calls++walkSegments (rest.drop n) (off+n)
termination_by rest.length
decreasing_by
  have := segmentStep_advances _h
  simp only [List.length_drop]
  omega

/-- A plausible segment header at `off`. -/
def segmentHeaderAt (cmdbuf : List UInt8) (off : Nat) : Bool :=
  decide (off+8 ≤ cmdbuf.length ∧ le32 cmdbuf off ≠ 0 ∧ le32 cmdbuf off ≤ cmdbuf.length-off ∧
    byteAt cmdbuf (off+4) ∈ [0, 1, 2, 4, 5])

def locateSegmentHeader (cmdbuf : List UInt8) : Option Nat :=
  [0, 8].find? (segmentHeaderAt cmdbuf)

/-- The calls made for the bytes of one resource. -/
def walkCmdbuf (buf : List UInt8) : List InnerCall :=
  match locateSegmentHeader buf with
  | none => []
  | some off => walkSegments (buf.drop off) off

/- The buffer picked for `length` bytes: its size, and the size of the heap
   buffer afterwards. -/
def execBufSize (env : Env) (heapSize length : Nat) : Nat × Nat :=
  if length ≤ maxRingRead then (maxRingRead, heapSize)
  else
    let newSize := (length+0xffff)/0x10000*0x10000
    let heapSize := if heapSize < length ∧ env.reallocOk newSize = true then newSize else heapSize
    if length ≤ heapSize then (heapSize, heapSize) else (maxRingRead, heapSize)

/- The page-chunked read. An address the task does not map is read as physical,
   and a failed read ends the buffer where it is. -/
def readCmdbuf (s : State) (task : Option TaskEntry) : Nat → Nat → Nat → List UInt8
  | 0, _, _ => []
  | rounds+1, curVa, left =>
    if left = 0 then []
    else
      let curGpa := (task.bind fun t => taskTranslate s t curVa).getD curVa
      let chunk := min (pageBytes-curGpa%pageBytes) left
      match s.readMemory curGpa chunk with
      | none => []
      | some b => b++readCmdbuf s task rounds (u64 (curVa+chunk)) (left-chunk)

def execMaxLength : Nat := 2^22

/-- The bytes `exec_walk_resource` has in its buffer when it starts to walk. -/
def execBuf (s : State) (env : Env) (task : Option TaskEntry) (hostGpuAddr length : Nat) :
    List UInt8 :=
  if length = 0 ∨ execMaxLength < length then []
  else
    let toRead := min length (execBufSize env s.scratchExecHeapSize length).1
    readCmdbuf s task toRead hostGpuAddr toRead

def execHeapSize (s : State) (env : Env) (length : Nat) : Nat :=
  if length = 0 ∨ execMaxLength < length then s.scratchExecHeapSize
  else (execBufSize env s.scratchExecHeapSize length).2

/-- The dispatcher calls of `exec_walk_resource`, in order. -/
def execWalkResource (s : State) (env : Env) (task : Option TaskEntry) (hostGpuAddr length : Nat) :
    List InnerCall :=
  walkCmdbuf (execBuf s env task hostGpuAddr length)

/-- The bytes a call was given lie in the buffer. -/
def InnerCall.Inside (c : InnerCall) (buf : List UInt8) : Prop := PartAt buf c.off c.body

theorem innerStep_inside {encoderType off n : Nat} {buf rest : List UInt8} {c : InnerCall}
    (hp : PartAt buf off rest) (h : innerStep encoderType rest off = some (some c, n)) :
    c.Inside buf := by
  rw [innerStep] at h
  split_ifs at h with h8
  dsimp only at h
  split_ifs at h with hbad
  obtain ⟨hc, -⟩ := Prod.mk.inj (Option.some.inj h)
  obtain ⟨target, -, rfl⟩ := Option.map_eq_some_iff.mp hc
  exact hp.window (by omega)

theorem innerWalkSegment_inside {encoderType : Nat} {buf : List UInt8} :
    ∀ (rest : List UInt8) (off : Nat), PartAt buf off rest →
      ∀ c ∈ innerWalkSegment encoderType rest off, c.Inside buf := by
  intro rest off
  induction rest, off using innerWalkSegment.induct encoderType with
  | case1 rest off h =>
    intro _ c hc
    rw [innerWalkSegment, h] at hc
    simp at hc
  | case2 rest off call n h ih =>
    intro hp c hc
    rw [innerWalkSegment, h] at hc
    obtain hc | hc := List.mem_append.mp hc
    · obtain rfl := Option.mem_toList.mp hc
      exact innerStep_inside hp h
    · exact ih (hp.drop (innerStep_advances h).2) c hc

theorem walkSegments_inside {buf : List UInt8} :
    ∀ (rest : List UInt8) (off : Nat), PartAt buf off rest →
      ∀ c ∈ walkSegments rest off, c.Inside buf := by
  intro rest off
  induction rest, off using walkSegments.induct with
  | case1 rest off h =>
    intro _ c hc
    rw [walkSegments, h] at hc
    simp at hc
  | case2 rest off calls n h ih =>
    intro hp c hc
    rw [walkSegments, h] at hc
    obtain hc | hc := List.mem_append.mp hc
    · obtain ⟨-, rfl, -⟩ | ⟨h8, hl, rfl⟩ := segmentStep_cases h
      · simp at hc
      · exact innerWalkSegment_inside _ _ (hp.window (by omega)) c hc
    · exact ih (hp.drop (segmentStep_advances h).2) c hc

/-- On arbitrary bytes: whatever a dispatcher is handed lies in the bytes read. -/
theorem walkCmdbuf_inside (buf : List UInt8) : ∀ c ∈ walkCmdbuf buf, c.Inside buf := by
  rw [walkCmdbuf]
  cases hl : locateSegmentHeader buf with
  | none => simp
  | some off =>
    have hoff : off ≤ buf.length := by
      have hv := List.find?_some hl
      simp only [segmentHeaderAt, decide_eq_true_eq] at hv
      omega
    have hp := (partAt_self buf).drop hoff
    rw [Nat.zero_add] at hp
    exact walkSegments_inside _ _ hp

/-- Each inner command costs eight bytes, so the walk ends after that many. -/
theorem innerWalkSegment_bound (encoderType : Nat) :
    ∀ (rest : List UInt8) (off : Nat), (innerWalkSegment encoderType rest off).length*8 ≤ rest.length := by
  intro rest off
  induction rest, off using innerWalkSegment.induct encoderType with
  | case1 rest off h =>
    rw [innerWalkSegment, h]
    simp
  | case2 rest off call n h ih =>
    have ha := innerStep_advances h
    rw [innerWalkSegment, h]
    simp only [List.length_append, List.length_drop] at ih ⊢
    have hone : call.toList.length ≤ 1 := by cases call <;> simp
    omega

theorem walkSegments_bound :
    ∀ (rest : List UInt8) (off : Nat), (walkSegments rest off).length*8 ≤ rest.length := by
  intro rest off
  induction rest, off using walkSegments.induct with
  | case1 rest off h =>
    rw [walkSegments, h]
    simp
  | case2 rest off calls n h ih =>
    rw [walkSegments, h]
    simp only [List.length_append, List.length_drop] at ih ⊢
    obtain ⟨hl, rfl, rfl⟩ | ⟨h8, hl, rfl⟩ := segmentStep_cases h
    · simp only [List.length_nil]
      omega
    · have hb := innerWalkSegment_bound (byteAt rest 4) (window rest 8 (n-8)) (off+8)
      rw [window_length rest 8 (n-8) (by omega)] at hb
      omega

/- The serializer's side: what the guest lays out in a resource buffer. -/
structure InnerCmd where
  opcode : Nat
  body : List UInt8
  opcode_lt : opcode < 2^32

def InnerCmd.bytes (c : InnerCmd) : List UInt8 :=
  putLe 4 c.opcode++putLe 4 (8+c.body.length)++c.body

/-- An encType=5 header and the u64 behind it. -/
structure Preamble where
  size : Nat
  flags : List UInt8
  options : List UInt8
  flags_length : flags.length = 3
  options_length : options.length = 8

def Preamble.bytes (p : Preamble) : List UInt8 := putLe 4 p.size++[5]++p.flags++p.options

structure Segment where
  preambles : List Preamble
  encoderType : Nat
  flags : List UInt8
  cmds : List InnerCmd
  encoderType_mem : encoderType ∈ [0, 1, 2, 4]
  flags_length : flags.length = 3

def Segment.inner (seg : Segment) : List UInt8 := seg.cmds.flatMap InnerCmd.bytes

def Segment.bytes (seg : Segment) : List UInt8 :=
  seg.preambles.flatMap Preamble.bytes++
    (putLe 4 (8+seg.inner.length)++[UInt8.ofNat seg.encoderType]++seg.flags++seg.inner)

def serialize (segs : List Segment) : List UInt8 := segs.flatMap Segment.bytes

/-- What a dispatcher gets to see of a call. -/
def InnerCall.shape (c : InnerCall) : InnerTarget × Nat × Nat × List UInt8 :=
  (c.target, c.encoderType, c.opcode, c.body)

/-- The dispatcher a command of an encoder type is for. -/
def dispatcherOf (encoderType op16 : Nat) : InnerTarget :=
  match encoderType with
  | 2 => .render
  | 4 => if 0x1c2 ≤ op16 ∧ op16 ≤ 0x1d0 then .info else .blit
  | _ => .compute

def InnerCmd.call (encoderType : Nat) (c : InnerCmd) : InnerTarget × Nat × Nat × List UInt8 :=
  (dispatcherOf encoderType (c.opcode%2^16), encoderType, c.opcode%2^16, c.body)

/-- The calls a segment stands for: one for each of its commands, in order. -/
def Segment.calls (seg : Segment) : List (InnerTarget × Nat × Nat × List UInt8) :=
  seg.cmds.map (InnerCmd.call seg.encoderType)

/- The size fields of the preambles, followed by `behind` bytes, are nonzero and
   point inside the buffer. -/
def PreamblesFit (behind : Nat) : List Preamble → Prop
  | [] => True
  | p :: ps => p.size ≠ 0 ∧ p.size ≤ 16*(ps.length+1)+behind ∧ PreamblesFit behind ps

def StreamFits : List Segment → Prop
  | [] => True
  | seg :: segs =>
    PreamblesFit (8+seg.inner.length+(serialize segs).length) seg.preambles ∧ StreamFits segs

theorem innerTarget_eq {encoderType : Nat} (h : encoderType ∈ [0, 1, 2, 4]) (op16 : Nat) :
    innerTarget encoderType op16 = some (dispatcherOf encoderType op16) := by
  simp only [List.mem_cons, List.not_mem_nil, or_false] at h
  obtain rfl | rfl | rfl | rfl := h
  · rfl
  · rfl
  · rfl
  · by_cases hi : 0x1c2 ≤ op16 ∧ op16 ≤ 0x1d0
    · simp [innerTarget, dispatcherOf, infoOpFirst, infoOpLast, hi]
    · simp only [innerTarget, dispatcherOf, infoOpFirst, infoOpLast, hi, if_false]
      rfl

theorem le32_putLe {v : Nat} (h : v < 2^32) (rest : List UInt8) : le32 (putLe 4 v++rest) 0 = v := by
  have hw := window_zero_self (putLe 4 v) rest
  rw [putLe_length] at hw
  rw [le32, hw, leNat_putLe_of_lt]
  exact lt_of_lt_of_eq h (by norm_num)

theorem le32_append {u : List UInt8} (rest : List UInt8) {i : Nat} (h : u.length = i) :
    le32 (u++rest) i = le32 rest 0 := by
  have hw := window_append_right u rest 0 4
  rw [Nat.add_zero, h] at hw
  rw [le32, hw]
  rfl

/-- One inner command is read back whole. -/
theorem innerStep_bytes {encoderType : Nat} (he : encoderType ∈ [0, 1, 2, 4]) (c : InnerCmd)
    (rest : List UInt8) (off : Nat) (hl : 8+c.body.length < 2^32) :
    ∃ call, innerStep encoderType (c.bytes++rest) off = some (some call, c.bytes.length) ∧
      call.shape = c.call encoderType := by
  have hlen : c.bytes.length = 8+c.body.length := by
    simp only [InnerCmd.bytes, List.length_append, putLe_length]
  have hbytes : c.bytes++rest =
      putLe 4 c.opcode++(putLe 4 (8+c.body.length)++(c.body++rest)) := by
    simp [InnerCmd.bytes]
  have hop : le32 (c.bytes++rest) 0 = c.opcode := by
    rw [hbytes, le32_putLe c.opcode_lt]
  have htot : le32 (c.bytes++rest) 4 = 8+c.body.length := by
    rw [hbytes, le32_append _ (putLe_length 4 _), le32_putLe hl]
  have hbody : window (c.bytes++rest) 8 c.body.length = c.body := by
    have hw := window_append_right (putLe 4 c.opcode++putLe 4 (8+c.body.length)) (c.body++rest) 0
      c.body.length
    rw [window_zero_self] at hw
    simpa [InnerCmd.bytes] using hw
  have h8 : ¬ (c.bytes++rest).length < 8 := by
    rw [List.length_append]
    omega
  have hok : ¬ (8+c.body.length < 8 ∨ (c.bytes++rest).length < 8+c.body.length) := by
    rw [List.length_append]
    omega
  simp only [innerStep, h8, if_false, hop, htot, hok, innerTarget_eq he, Option.map_some,
    Nat.add_sub_cancel_left, hbody, hlen]
  exact ⟨_, rfl, rfl⟩

theorem innerWalkSegment_cmds {encoderType : Nat} (he : encoderType ∈ [0, 1, 2, 4]) :
    ∀ (cmds : List InnerCmd) (off : Nat), (cmds.flatMap InnerCmd.bytes).length < 2^32 →
      (innerWalkSegment encoderType (cmds.flatMap InnerCmd.bytes) off).map InnerCall.shape =
        cmds.map (InnerCmd.call encoderType) := by
  intro cmds
  induction cmds with
  | nil =>
    intro off _
    rw [innerWalkSegment]
    simp [innerStep]
  | cons c cmds ih =>
    intro off hl
    simp only [List.flatMap_cons, List.length_append] at hl
    have hc : 8+c.body.length < 2^32 := by
      have : c.bytes.length = 8+c.body.length := by
        simp only [InnerCmd.bytes, List.length_append, putLe_length]
      omega
    obtain ⟨call, hstep, hshape⟩ := innerStep_bytes he c (cmds.flatMap InnerCmd.bytes) off hc
    rw [List.flatMap_cons, innerWalkSegment, hstep]
    simp only [Option.toList_some, List.map_append, List.map_cons, List.map_nil, hshape,
      List.drop_left, ih _ (by omega)]
    rfl

theorem Preamble.bytes_length (p : Preamble) : p.bytes.length = 16 := by
  simp [Preamble.bytes, p.flags_length, p.options_length]

theorem preambles_length (ps : List Preamble) :
    (ps.flatMap Preamble.bytes).length = 16*ps.length := by
  induction ps with
  | nil => rfl
  | cons p ps ih =>
    rw [List.flatMap_cons, List.length_append, p.bytes_length, ih, List.length_cons]
    omega

theorem byteAt_append {u : List UInt8} (x : UInt8) (rest : List UInt8) {i : Nat}
    (h : u.length = i) : byteAt (u++x::rest) i = x.toNat := by
  subst h
  simp [byteAt]

/-- A preamble with a header behind it is skipped. -/
theorem walkSegments_preamble (p : Preamble) (rest : List UInt8) (off : Nat)
    (h : 8 ≤ rest.length) : walkSegments (p.bytes++rest) off = walkSegments rest (off+16) := by
  have hlen : (p.bytes++rest).length = 16+rest.length := by
    rw [List.length_append, p.bytes_length]
  have henc : byteAt (p.bytes++rest) 4 = 5 := by
    have hb : p.bytes++rest = putLe 4 p.size++5::(p.flags++p.options++rest) := by
      simp [Preamble.bytes]
    rw [hb, byteAt_append _ _ (putLe_length 4 _)]
    rfl
  have h8 : ¬ 16+rest.length < 8 := by omega
  have h24 : ¬ 16+rest.length < 24 := by omega
  have hstep : segmentStep (p.bytes++rest) off = some ([], 16) := by
    simp only [segmentStep, hlen, h8, henc, h24, if_false, if_true]
  rw [walkSegments, hstep]
  have hd : (p.bytes++rest).drop 16 = rest := by
    have := @List.drop_left _ p.bytes rest
    rwa [p.bytes_length] at this
  simp only [hd, List.nil_append]

theorem walkSegments_preambles : ∀ (ps : List Preamble) (rest : List UInt8) (off : Nat),
    8 ≤ rest.length →
      ∃ off', walkSegments (ps.flatMap Preamble.bytes++rest) off = walkSegments rest off' := by
  intro ps
  induction ps with
  | nil =>
    intro rest off _
    exact ⟨off, rfl⟩
  | cons p ps ih =>
    intro rest off h
    obtain ⟨off', hw⟩ := ih rest (off+16) h
    refine ⟨off', ?_⟩
    rw [List.flatMap_cons, List.append_assoc, walkSegments_preamble p _ off ?_, hw]
    rw [List.length_append]
    omega

/-- The header and commands of a segment, without its preambles. -/
def Segment.core (seg : Segment) : List UInt8 :=
  putLe 4 (8+seg.inner.length)++[UInt8.ofNat seg.encoderType]++seg.flags++seg.inner

theorem Segment.core_length (seg : Segment) : seg.core.length = 8+seg.inner.length := by
  simp [Segment.core, seg.flags_length]
  omega

theorem Segment.core_size (seg : Segment) (rest : List UInt8) (h : 8+seg.inner.length < 2^32) :
    le32 (seg.core++rest) 0 = 8+seg.inner.length := by
  have hb : seg.core++rest = putLe 4 (8+seg.inner.length)++
      ([UInt8.ofNat seg.encoderType]++seg.flags++seg.inner++rest) := by
    simp [Segment.core]
  rw [hb, le32_putLe h]

theorem Segment.core_encoderType (seg : Segment) (rest : List UInt8) :
    byteAt (seg.core++rest) 4 = seg.encoderType := by
  have hb : seg.core++rest = putLe 4 (8+seg.inner.length)++
      UInt8.ofNat seg.encoderType::(seg.flags++seg.inner++rest) := by
    simp [Segment.core]
  rw [hb, byteAt_append _ _ (putLe_length 4 _)]
  have he := seg.encoderType_mem
  simp only [List.mem_cons, List.not_mem_nil, or_false] at he
  obtain h | h | h | h := he <;> rw [h] <;> rfl

/-- One segment makes its calls, and the walk goes on behind it. -/
theorem walkSegments_core (seg : Segment) (rest : List UInt8) (off : Nat)
    (h : 8+seg.inner.length < 2^32) :
    (walkSegments (seg.core++rest) off).map InnerCall.shape =
      seg.calls++(walkSegments rest (off+(8+seg.inner.length))).map InnerCall.shape := by
  have hlen : (seg.core++rest).length = 8+seg.inner.length+rest.length := by
    rw [List.length_append, seg.core_length]
  have hinner : window (seg.core++rest) 8 seg.inner.length = seg.inner := by
    have hw := window_append_right (putLe 4 (8+seg.inner.length)++[UInt8.ofNat seg.encoderType]++
      seg.flags) (seg.inner++rest) 0 seg.inner.length
    rw [window_zero_self] at hw
    simpa [Segment.core, seg.flags_length] using hw
  have hmem := seg.encoderType_mem
  have h5 : seg.encoderType ≠ 5 := by
    intro h5
    rw [h5] at hmem
    simp at hmem
  have h8 : ¬ 8+seg.inner.length+rest.length < 8 := by omega
  have hok : ¬ (seg.encoderType ∉ [0, 1, 2, 4] ∨ 8+seg.inner.length < 8 ∨
      8+seg.inner.length+rest.length < 8+seg.inner.length) := by
    simp only [not_or, not_not]
    exact ⟨hmem, by omega, by omega⟩
  have hstep : segmentStep (seg.core++rest) off =
      some (innerWalkSegment seg.encoderType seg.inner (off+8), 8+seg.inner.length) := by
    simp only [segmentStep, hlen, h8, if_false, seg.core_size rest h, seg.core_encoderType, h5, hok,
      Nat.add_sub_cancel_left, hinner]
  have hd : (seg.core++rest).drop (8+seg.inner.length) = rest := by
    have := @List.drop_left _ seg.core rest
    rwa [seg.core_length] at this
  rw [walkSegments, hstep]
  simp only [hd, List.map_append]
  rw [Segment.inner, innerWalkSegment_cmds hmem _ _ (by unfold Segment.inner at h; omega)]
  rfl

theorem serialize_cons (seg : Segment) (segs : List Segment) : serialize (seg::segs) =
    seg.preambles.flatMap Preamble.bytes++(seg.core++serialize segs) := by
  simp [serialize, Segment.bytes, Segment.core]

/-- Back-to-back segments are walked one after the other, to the end. -/
theorem walkSegments_serialize : ∀ (segs : List Segment) (off : Nat),
    (serialize segs).length < 2^32 →
      (walkSegments (serialize segs) off).map InnerCall.shape = segs.flatMap Segment.calls := by
  intro segs
  induction segs with
  | nil =>
    intro off _
    rw [serialize, List.flatMap_nil, walkSegments]
    simp [segmentStep]
  | cons seg segs ih =>
    intro off hl
    rw [serialize_cons] at hl ⊢
    simp only [List.length_append, seg.core_length] at hl
    obtain ⟨off', hw⟩ := walkSegments_preambles seg.preambles (seg.core++serialize segs) off (by
      rw [List.length_append, seg.core_length]
      omega)
    rw [hw, walkSegments_core seg _ _ (by omega), ih _ (by omega), List.flatMap_cons]

theorem segmentHeaderAt_zero {buf : List UInt8} (h8 : 8 ≤ buf.length) (h0 : le32 buf 0 ≠ 0)
    (hl : le32 buf 0 ≤ buf.length) (he : byteAt buf 4 ∈ [0, 1, 2, 4, 5]) :
    locateSegmentHeader buf = some 0 := by
  have hv : segmentHeaderAt buf 0 = true := by
    simp only [segmentHeaderAt, decide_eq_true_eq, Nat.zero_add, Nat.sub_zero]
    exact ⟨h8, h0, hl, he⟩
  simp [locateSegmentHeader, hv]

/-- The probe at offset 0 finds the first header, be it a preamble's. -/
theorem locateSegmentHeader_serialize {seg : Segment} {segs : List Segment}
    (hfit : StreamFits (seg::segs)) (hl : (serialize (seg::segs)).length < 2^32) :
    locateSegmentHeader (serialize (seg::segs)) = some 0 := by
  rw [serialize_cons] at hl ⊢
  cases hp : seg.preambles with
  | nil =>
    rw [hp] at hl
    simp only [List.flatMap_nil, List.nil_append, List.length_append, seg.core_length] at hl ⊢
    have hsize := seg.core_size (serialize segs) (by omega)
    apply segmentHeaderAt_zero
    · rw [List.length_append, seg.core_length]
      omega
    · omega
    · rw [hsize, List.length_append, seg.core_length]
      omega
    · rw [seg.core_encoderType]
      exact List.mem_append_left [5] seg.encoderType_mem
  | cons p ps =>
    obtain ⟨hfit, -⟩ := hfit
    rw [hp] at hfit hl
    obtain ⟨h0, hle, -⟩ := hfit
    have hps := preambles_length ps
    simp only [List.flatMap_cons, List.append_assoc, List.length_append, seg.core_length, hps,
      p.bytes_length] at hl ⊢
    have hb : p.bytes++(ps.flatMap Preamble.bytes++(seg.core++serialize segs)) =
        putLe 4 p.size++5::(p.flags++p.options++
          (ps.flatMap Preamble.bytes++(seg.core++serialize segs))) := by
      simp [Preamble.bytes]
    have hlen : (p.bytes++(ps.flatMap Preamble.bytes++(seg.core++serialize segs))).length =
        16+(16*ps.length+(8+seg.inner.length+(serialize segs).length)) := by
      simp only [List.length_append, p.bytes_length, hps, seg.core_length]
    have hsize : le32 (p.bytes++(ps.flatMap Preamble.bytes++(seg.core++serialize segs))) 0 =
        p.size := by
      rw [hb, le32_putLe (by omega)]
    apply segmentHeaderAt_zero
    · omega
    · rwa [hsize]
    · rw [hsize, hlen]
      omega
    · rw [hb, byteAt_append _ _ (putLe_length 4 _)]
      decide

theorem walkCmdbuf_serialize {segs : List Segment} (hfit : StreamFits segs)
    (hl : (serialize segs).length < 2^32) :
    (walkCmdbuf (serialize segs)).map InnerCall.shape = segs.flatMap Segment.calls := by
  cases segs with
  | nil => rfl
  | cons seg segs =>
    rw [walkCmdbuf, locateSegmentHeader_serialize hfit hl]
    exact walkSegments_serialize (seg::segs) 0 hl

/-- The task's page table maps these bytes from `va` on. -/
def VirtualBytes (s : State) (task : TaskEntry) (va : Nat) (bytes : List UInt8) : Prop :=
  ∀ (i : Nat) (hi : i < bytes.length), (taskTranslate s task (u64 (va+i))).map s.mem = some bytes[i]

theorem VirtualBytes.drop {s : State} {task : TaskEntry} {va : Nat} {bytes : List UInt8}
    (h : VirtualBytes s task va bytes) (c : Nat) :
    VirtualBytes s task (u64 (va+c)) (bytes.drop c) := by
  intro i hi
  have hi' : c+i < bytes.length := by
    rw [List.length_drop] at hi
    omega
  have hu : u64 (u64 (va+c)+i) = u64 (va+(c+i)) := by
    simp only [u64]
    omega
  rw [hu, h (c+i) hi', List.getElem_drop]

/-- A chunk that stays in the page reads the next task-virtual bytes. -/
theorem VirtualBytes.read_chunk {s : State} {task : TaskEntry} {va gpa c : Nat}
    {bytes : List UInt8} (h : VirtualBytes s task va bytes) (hv : va < 2^64)
    (ht : taskTranslate s task va = some gpa) (hc : c ≤ bytes.length)
    (hp : va%pageBytes+c ≤ pageBytes) : read s.mem gpa c = bytes.take c := by
  apply List.ext_getElem
  · rw [read_length, List.length_take]
    omega
  · intro j hj hj'
    rw [read_length] at hj
    have hb := h j (by omega)
    rw [taskTranslate_in_page s task hv (by omega), ht] at hb
    rw [read_getElem, List.getElem_take]
    exact Option.some.inj hb

/-- Over mapped memory the page-chunked read returns the task-virtual bytes. -/
theorem readCmdbuf_mapped {s : State} (hdma : ∀ gpa n, s.readOk gpa n = true) (task : TaskEntry) :
    ∀ (rounds va : Nat) (bytes : List UInt8), va < 2^64 → bytes.length ≤ rounds →
      VirtualBytes s task va bytes → readCmdbuf s (some task) rounds va bytes.length = bytes := by
  intro rounds
  induction rounds with
  | zero =>
    intro va bytes _ hr _
    exact (List.eq_nil_of_length_eq_zero (by omega)).symm
  | succ rounds ih =>
    intro va bytes hv hr hm
    by_cases h0 : bytes.length = 0
    · rw [h0, readCmdbuf, if_pos rfl]
      exact (List.eq_nil_of_length_eq_zero h0).symm
    have hfirst := hm 0 (by omega)
    rw [Nat.add_zero, u64, Nat.mod_eq_of_lt hv] at hfirst
    obtain ⟨gpa, ht, -⟩ := Option.map_eq_some_iff.mp hfirst
    have hmod : gpa%pageBytes = va%pageBytes := taskTranslate_mod ht
    generalize hc : min (pageBytes-gpa%pageBytes) bytes.length = c
    have hcpos : 0 < c := by
      have := Nat.mod_lt gpa (show 0 < pageBytes by decide)
      omega
    have hread : s.readMemory gpa c = some (bytes.take c) := by
      rw [State.readMemory, if_pos (hdma gpa c), hm.read_chunk hv ht (by omega) (by omega)]
    have hrest := ih (u64 (va+c)) (bytes.drop c) (Nat.mod_lt _ (by norm_num))
      (by rw [List.length_drop]; omega) (hm.drop c)
    rw [List.length_drop] at hrest
    simp only [readCmdbuf, h0, if_false, Option.bind_some, ht, Option.getD_some, hc, hread, hrest,
      List.take_append_drop]

/-- A buffer large enough for the whole resource is found when realloc succeeds. -/
theorem execBufSize_ge {env : Env} (hr : ∀ n, env.reallocOk n = true) (heapSize : Nat)
    {length : Nat} : length ≤ (execBufSize env heapSize length).1 := by
  rw [execBufSize]
  by_cases hl : length ≤ maxRingRead
  · simp [hl]
  · simp only [hl, if_false, hr, and_true]
    by_cases hh : heapSize < length
    · have hge : length ≤ (length+0xffff)/0x10000*0x10000 := by omega
      simp only [hh, if_true, hge]
    · simp [hh, Nat.not_lt.mp hh]

theorem execBuf_mapped {s : State} (hdma : ∀ gpa n, s.readOk gpa n = true) {env : Env}
    (hr : ∀ n, env.reallocOk n = true) {task : TaskEntry} {va : Nat} (hv : va < 2^64)
    {bytes : List UInt8} (hl : bytes.length ≤ execMaxLength) (hm : VirtualBytes s task va bytes) :
    execBuf s env (some task) va bytes.length = bytes := by
  rw [execBuf]
  by_cases h0 : bytes.length = 0
  · simp [List.eq_nil_of_length_eq_zero h0]
  · have hbad : ¬ (bytes.length = 0 ∨ execMaxLength < bytes.length) := by omega
    simp only [hbad, if_false, min_eq_left (execBufSize_ge hr s.scratchExecHeapSize)]
    exact readCmdbuf_mapped hdma task bytes.length va bytes hv le_rfl hm

/-- The walker inverts the serializer: over a mapped buffer every inner command
makes one call, in order, with its own body. On arbitrary bytes each round of
either loop consumes at least 8 bytes, and bodies lie in the bytes read. -/
theorem exec_walk_inverts_serializer :
    (∀ (s : State) (env : Env) (task : TaskEntry) (va : Nat) (segs : List Segment),
      (∀ gpa n, s.readOk gpa n = true) → (∀ n, env.reallocOk n = true) → va < 2^64 →
      StreamFits segs → (serialize segs).length ≤ execMaxLength →
      VirtualBytes s task va (serialize segs) →
        (execWalkResource s env (some task) va (serialize segs).length).map InnerCall.shape =
          segs.flatMap Segment.calls) ∧
    (∀ (s : State) (env : Env) (task : Option TaskEntry) (va length : Nat),
      ∀ c ∈ execWalkResource s env task va length, c.Inside (execBuf s env task va length)) ∧
    (∀ (rest : List UInt8) (off n : Nat) (calls : List InnerCall),
      segmentStep rest off = some (calls, n) → 8 ≤ n ∧ n ≤ rest.length) ∧
    (∀ (encoderType : Nat) (rest : List UInt8) (off n : Nat) (call : Option InnerCall),
      innerStep encoderType rest off = some (call, n) → 8 ≤ n ∧ n ≤ rest.length) ∧
    (∀ (rest : List UInt8) (off : Nat), (walkSegments rest off).length*8 ≤ rest.length) := by
  refine ⟨?_, fun s env task va length => walkCmdbuf_inside _, fun _ _ _ _ => segmentStep_advances,
    fun _ _ _ _ _ => innerStep_advances, walkSegments_bound⟩
  intro s env task va segs hdma hr hv hfit hl hm
  rw [execWalkResource, execBuf_mapped hdma hr hv hl hm]
  apply walkCmdbuf_serialize hfit
  simp only [execMaxLength] at hl
  omega

/- A render segment with one command and, behind a preamble, a blit segment with
   an info query; the buffer lies across VA pages 1 and 2, at physical pages 20
   and 30. -/
def walkSegs : List Segment :=
  [{ preambles := [], encoderType := 2, flags := [0, 0, 0]
     cmds := [⟨0x1a, [1, 2, 3, 4], by decide⟩], encoderType_mem := by decide, flags_length := rfl },
   { preambles := [⟨16, [0, 0, 0], [0, 0, 0, 0, 0, 0, 0, 0], rfl, rfl⟩], encoderType := 4
     flags := [1, 0, 0], cmds := [⟨0x101c2, [9], by decide⟩], encoderType_mem := by decide
     flags_length := rfl }]

def walkState : State :=
  { mem := write (write (write (write (fun _ => 0)
      (16*4096) (putLe 4 17++putLe 4 1))
      (17*4096+4) (putLe 4 (2^31+20)++putLe 4 (2^31+30)))
      (20*4096+4080) ((serialize walkSegs).take 16))
      (30*4096) ((serialize walkSegs).drop 16) }

theorem exec_walk_two_pages :
    (execWalkResource walkState {} (some { rootPagePfn := 16 }) 0x1ff0
      (serialize walkSegs).length).map InnerCall.shape =
        [(.render, 2, 0x1a, [1, 2, 3, 4]), (.info, 4, 0x1c2, [9])] :=
  exec_walk_inverts_serializer.1 walkState {} { rootPagePfn := 16 } 0x1ff0 walkSegs
    (fun _ _ => rfl) (fun _ => rfl) (by decide) ⟨trivial, ⟨by decide, by decide, trivial⟩, trivial⟩
    (by decide) (by unfold VirtualBytes; decide)

end Lagfx
