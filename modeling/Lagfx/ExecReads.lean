import Lagfx.Dispatch
import Lagfx.InfoReplies

/-! The bytes of its payload that CmdExecIndirect2 reads: the count words, the dump of the
descriptor table, the resource records, and the records that the Info replies look up. -/
namespace Lagfx
open ByteMemory

/-- `len` bytes at `off`. -/
structure PayloadRead where
  off : Nat
  len : Nat
deriving DecidableEq, Repr

/- Address and length of the record at `r`. -/
def recordReads (r : Nat) : List PayloadRead := [⟨r, 8⟩, ⟨r+8, 4⟩]

/-- `lagfx_info_dispatch` looks its buffer up before it has checked the offset of the reply. -/
def infoReads (resStart resourceCount innerOpcode : Nat) (body : List UInt8) :
    List PayloadRead :=
  match infoDecode innerOpcode body with
  | none => []
  | some q =>
    if q.reply.length = 0 ∨ resourceCount ≤ q.bufferId then []
    else recordReads (resStart+q.bufferId*16)

def callReads (resStart resourceCount : Nat) (call : InnerCall) : List PayloadRead :=
  if call.target = .info then infoReads resStart resourceCount call.opcode call.body else []

/-- Record `i`, and what the walk of its buffer looks up. -/
def execResourceReads (env : Env) (hdr : CmdHeader) (ctx : ExecContext) (resStart : Nat)
    (s : State) (i : Nat) : List PayloadRead :=
  let r := resStart+u32 (16*i)
  let task := ctx.taskSlot.map s.world.tasks.get
  let calls := execWalkResource s env task (hdr.quad r) (hdr.word (r+8))
  recordReads r++calls.flatMap (callReads resStart ctx.resourceCount)

/- The records are walked one after the other, each in the state the last one left. -/
def execRecordsReads (env : Env) (hdr : CmdHeader) (ctx : ExecContext) (resStart : Nat) :
    List Nat → State → List PayloadRead
  | [], _ => []
  | i :: is, s =>
    execResourceReads env hdr ctx resStart s i++
      execRecordsReads env hdr ctx resStart is (execResource env hdr ctx resStart s i)

def execResourcesReads (env : Env) (s : State) (hdr : CmdHeader) : List PayloadRead :=
  let resStart := 12+u32 (24*hdr.word 4)
  let ctx : ExecContext :=
    { taskSlot := s.world.tasks.findTask (hdr.word 0)
      taskId := hdr.word 0
      outerResources := (hdr.payload++hdr.beyond).drop resStart
      resourceCount := hdr.word 8
      stamp := hdr.stamp }
  execRecordsReads env hdr ctx resStart (List.range (hdr.word 8)) s

/- Made once: `dumped` is the flag of the device. -/
def descTableDump (dumped : Bool) (descriptorCount : Nat) : List PayloadRead :=
  if dumped = false ∧ 0 < descriptorCount then [⟨12, min (descriptorCount*24) 256⟩] else []

/-- The reads of `lagfx_compute_exec_cmdbuf`, in their order. -/
def execReads (env : Env) (s : State) (dumped : Bool) (hdr : CmdHeader) : List PayloadRead :=
  if hdr.payloadSize < 8 then []
  else if hdr.payloadSize = 8 then [⟨0, 4⟩]
  else
    [⟨0, 4⟩, ⟨4, 4⟩, ⟨8, 4⟩]++
      if hdr.payloadSize < u32 (12+24*hdr.word 4+16*hdr.word 8) then []
      else descTableDump dumped (hdr.word 4)++execResourcesReads env s hdr

/-- What the tables take, as the counts say. -/
def CmdHeader.tablesBytes (hdr : CmdHeader) : Nat := 12+24*hdr.word 4+16*hdr.word 8

def ReadsBelow (size : Nat) (reads : List PayloadRead) : Prop :=
  ∀ r ∈ reads, ∀ i < r.len, r.off+i < size

theorem readsBelow_append {size : Nat} {u v : List PayloadRead} :
    ReadsBelow size (u++v) ↔ ReadsBelow size u ∧ ReadsBelow size v :=
  List.forall_mem_append

theorem recordReads_below {size r : Nat} (h : r+16 ≤ size) : ReadsBelow size (recordReads r) := by
  intro x hx i hi
  simp only [recordReads, List.mem_cons, List.not_mem_nil, or_false] at hx
  obtain rfl | rfl := hx
  all_goals
    dsimp only at hi ⊢
    omega

/-- A buffer that is looked up is below the count. -/
theorem callReads_below {size resStart rc : Nat} (h : resStart+16*rc ≤ size)
    (call : InnerCall) : ReadsBelow size (callReads resStart rc call) := by
  rw [callReads, infoReads]
  split_ifs
  · cases infoDecode call.opcode call.body with
    | none => exact List.forall_mem_nil _
    | some q =>
      dsimp only
      split_ifs with hbad
      · exact List.forall_mem_nil _
      · rw [not_or] at hbad
        apply recordReads_below
        omega
  · exact List.forall_mem_nil _

theorem execResourceReads_below {env : Env} {hdr : CmdHeader} {ctx : ExecContext}
    {size resStart i : Nat} (s : State) (h : resStart+16*ctx.resourceCount ≤ size)
    (hsize : size < 2^32) (hi : i < ctx.resourceCount) :
    ReadsBelow size (execResourceReads env hdr ctx resStart s i) := by
  have h16 : u32 (16*i) = 16*i := Nat.mod_eq_of_lt (by omega)
  rw [execResourceReads, readsBelow_append]
  constructor
  · rw [h16]
    apply recordReads_below
    omega
  · intro x hx
    obtain ⟨call, -, hcall⟩ := List.mem_flatMap.1 hx
    exact callReads_below h call x hcall

theorem execRecordsReads_below {env : Env} {hdr : CmdHeader} {ctx : ExecContext}
    {size resStart : Nat} (h : resStart+16*ctx.resourceCount ≤ size) (hsize : size < 2^32)
    (is : List Nat) (his : ∀ i ∈ is, i < ctx.resourceCount) (s : State) :
    ReadsBelow size (execRecordsReads env hdr ctx resStart is s) := by
  induction is generalizing s with
  | nil => exact List.forall_mem_nil _
  | cons i is ih =>
    rw [List.forall_mem_cons] at his
    rw [execRecordsReads, readsBelow_append]
    exact ⟨execResourceReads_below s h hsize his.1, ih his.2 _⟩

/-- Where the tables fit, the readers of the tables stay in them. -/
theorem tables_below (env : Env) (s : State) (dumped : Bool) {hdr : CmdHeader}
    (hsize : hdr.payloadSize < 2^32) (h : hdr.tablesBytes ≤ hdr.payloadSize) :
    ReadsBelow hdr.payloadSize
      (descTableDump dumped (hdr.word 4)++execResourcesReads env s hdr) := by
  rw [CmdHeader.tablesBytes] at h
  have h24 : u32 (24*hdr.word 4) = 24*hdr.word 4 := Nat.mod_eq_of_lt (by omega)
  rw [readsBelow_append]
  constructor
  · rw [descTableDump]
    split_ifs
    · intro x hx i hi
      obtain rfl := List.mem_singleton.1 hx
      dsimp only at hi ⊢
      omega
    · exact List.forall_mem_nil _
  · apply execRecordsReads_below _ hsize
    · intro i hi
      exact List.mem_range.1 hi
    · rw [h24]
      exact h

theorem countWords_below {size : Nat} :
    ReadsBelow size [⟨0, 4⟩, ⟨4, 4⟩, ⟨8, 4⟩] ↔ 12 ≤ size := by
  constructor
  · intro h
    have := h ⟨8, 4⟩ (by simp) 3 (by decide)
    dsimp only at this
    omega
  · intro h x hx i hi
    simp only [List.mem_cons, List.not_mem_nil, or_false] at hx
    obtain rfl | rfl | rfl := hx
    all_goals
      dsimp only at hi ⊢
      omega

/-- All reads are below the size of the payload, and beyond the queries of at most 8 bytes the
guard accepts exactly the tables that fit. -/
structure ExecInPayload (env : Env) (s : State) (dumped : Bool) (hdr : CmdHeader) : Prop where
  reads : ReadsBelow hdr.payloadSize (execReads env s dumped hdr)
  guard : 8 < hdr.payloadSize → (execAccepted hdr ↔ hdr.tablesBytes ≤ hdr.payloadSize)

/-- The size covers the count words or is a query's, and the sum of the guard is a word or
still over the size. -/
def GuardSound (hdr : CmdHeader) : Prop :=
  hdr.payloadSize ≤ 8 ∨
    (12 ≤ hdr.payloadSize ∧
      (hdr.tablesBytes < 2^32 ∨ hdr.payloadSize < u32 hdr.tablesBytes))

theorem guard_exact_iff {hdr : CmdHeader} (hsize : hdr.payloadSize < 2^16)
    (h8 : 8 < hdr.payloadSize) :
    (execAccepted hdr ↔ hdr.tablesBytes ≤ hdr.payloadSize) ↔
      (hdr.tablesBytes < 2^32 ∨ hdr.payloadSize < u32 hdr.tablesBytes) := by
  have hacc : execAccepted hdr ↔ u32 hdr.tablesBytes ≤ hdr.payloadSize := and_iff_right h8
  rw [hacc]
  by_cases hw : hdr.tablesBytes < 2^32
  · have hu : u32 hdr.tablesBytes = hdr.tablesBytes := Nat.mod_eq_of_lt hw
    rw [hu]
    exact iff_of_true Iff.rfl (.inl hw)
  · have hover : ¬hdr.tablesBytes ≤ hdr.payloadSize := by omega
    rw [iff_false_right hover, Nat.not_le, or_iff_right hw]

theorem exec_reads_in_payload_iff (env : Env) (s : State) (dumped : Bool) (hdr : CmdHeader)
    (hsize : hdr.payloadSize < 2^16) : ExecInPayload env s dumped hdr ↔ GuardSound hdr := by
  constructor
  · intro h
    by_cases h8 : hdr.payloadSize ≤ 8
    · exact .inl h8
    · have hreads := h.reads
      rw [execReads, if_neg (by omega), if_neg (by omega), readsBelow_append,
        countWords_below] at hreads
      exact .inr ⟨hreads.1, (guard_exact_iff hsize (by omega)).1 (h.guard (by omega))⟩
  · intro h
    obtain h8 | ⟨h12, hw⟩ := h
    · refine ⟨?_, fun hlt => absurd hlt (by omega)⟩
      rw [execReads]
      by_cases hlt : hdr.payloadSize < 8
      · rw [if_pos hlt]
        exact List.forall_mem_nil _
      · rw [if_neg hlt, if_pos (by omega)]
        intro x hx i hi
        obtain rfl := List.mem_singleton.1 hx
        dsimp only at hi ⊢
        omega
    · have hguard := (guard_exact_iff hsize (by omega)).2 hw
      refine ⟨?_, fun _ => hguard⟩
      rw [execReads, if_neg (by omega), if_neg (by omega), readsBelow_append, countWords_below]
      refine ⟨h12, ?_⟩
      split_ifs with hrej
      · exact List.forall_mem_nil _
      · exact tables_below env s dumped (by omega)
          (hguard.1 ⟨by omega, Nat.not_lt.1 hrej⟩)

/- Nine bytes of payload, and a descriptor table of 2^32+8 bytes in a payload of 20. -/
def shortExec : CmdHeader := CmdHeader.of 0x20 1 (List.replicate 9 0)
def wrappedExec : CmdHeader :=
  CmdHeader.of 0x20 1 (putLe 4 7++putLe 4 178956971++putLe 4 0++List.replicate 8 0)

theorem exec_reads_beyond_payload :
    (⟨8, 4⟩ ∈ execReads {} {} false shortExec ∧ ¬ReadsBelow 9 (execReads {} {} false shortExec)) ∧
      (execAccepted wrappedExec ∧ wrappedExec.payloadSize = 20 ∧
        wrappedExec.tablesBytes = 2^32+20) ∧
      ⟨12, 256⟩ ∈ execReads {} {} false wrappedExec ∧
      ¬ReadsBelow 20 (execReads {} {} false wrappedExec) := by
  have hshort : ⟨8, 4⟩ ∈ execReads {} {} false shortExec := by decide
  have hwrapped : ⟨12, 256⟩ ∈ execReads {} {} false wrappedExec := by decide
  refine ⟨⟨hshort, ?_⟩, by decide, hwrapped, ?_⟩
  · intro h
    exact absurd (h _ hshort 3 (by decide)) (by decide)
  · intro h
    exact absurd (h _ hwrapped 8 (by decide)) (by decide)

theorem exec_reads_one_descriptor : ExecInPayload {} {} false
    (CmdHeader.of 0x20 1 (putLe 4 7++putLe 4 1++putLe 4 0++List.replicate 24 0)) ↔
      GuardSound (CmdHeader.of 0x20 1 (putLe 4 7++putLe 4 1++putLe 4 0++List.replicate 24 0)) :=
  exec_reads_in_payload_iff _ _ _ _ (by decide)

end Lagfx
