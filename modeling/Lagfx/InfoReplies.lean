import Lagfx.TaskTranslate

/-! `lagfx_info_dispatch`: the replies to the Info commands, and where they are written. -/
namespace Lagfx
open ByteMemory

/-- What an Info command asks for: the buffer by its index in the resource table, the offset
in it, and the reply. -/
structure InfoQuery where
  ref : Nat
  bufferId : Nat
  replyOffset : Nat
  reply : List UInt8
deriving DecidableEq, Repr

/-- A body of at least `minLen` bytes, its fields at these offsets. -/
def infoQuery (body : List UInt8) (minLen refAt bufferAt offsetAt : Nat)
    (reply : List UInt8) : Option InfoQuery :=
  if body.length < minLen then none
  else some ⟨le32 body refAt, le32 body bufferAt, le64 body offsetAt, reply⟩

/- maxTotalThreadsPerThreadgroup, threadExecutionWidth, and the rest zero. -/
def computePipelineStateInfo : List UInt8 :=
  putLe 4 1024 ++ putLe 4 0 ++ putLe 4 32 ++ List.replicate 16 0

/- A width of 0 is replaced: the guest divides by it. -/
def forceExecutionWidth (reply : List UInt8) : List UInt8 :=
  if 12 ≤ reply.length ∧ le32 reply 8 = 0 then
    window reply 0 8 ++ putLe 4 32 ++ reply.drop 12
  else reply

/-- The decoder; 0x1c5 and 0x1c8 are never answered. -/
def infoDecode (innerOpcode : Nat) (body : List UInt8) : Option InfoQuery :=
  match innerOpcode with
  | 0x1c2 => infoQuery body 16 0 4 8 (forceExecutionWidth computePipelineStateInfo)
  | 0x1c3 =>
    (infoQuery body 0x2c 0 0x20 0x24 (putLe 8 4096 ++ putLe 8 4096)).map fun q =>
      { q with ref := 0 }
  | 0x1c4 => infoQuery body 0x18 0 4 8 (List.replicate 0x14 0)
  | 0x1c6 => infoQuery body 0x1c 0 4 8 (window body 0x14 8)
  | 0x1c7 => infoQuery body 0x1c 0 4 8 (window body 0x14 8)
  | 0x1c9 => infoQuery body 16 0 4 8 (putLe 4 1024 ++ List.replicate 8 0)
  | 0x1ca => infoQuery body 0x28 0 0x1c 0x20 (List.replicate 4 0)
  | 0x1cb => infoQuery body 0x28 0 0x1c 0x20 (List.replicate 4 0)
  | 0x1cc => infoQuery body 0x14 0 8 0xc (putLe 4 (le32 body 0) ++ List.replicate 4 0)
  | 0x1cd => infoQuery body 16 0 4 8 (List.replicate 8 0)
  | 0x1ce => infoQuery body 16 0 4 8 (List.replicate 16 0)
  | 0x1cf => infoQuery body 16 0 4 8 (List.replicate 8 0)
  | 0x1d0 => infoQuery body 16 0 4 8 (List.replicate 16 0)
  | _ => none

/-- One call of `write_memory`. -/
structure MemoryWrite where
  gpa : Nat
  bytes : List UInt8
deriving DecidableEq, Repr

/- The record of a buffer in the resource table. -/
def bufferAddr (outer : List UInt8) (bufferId : Nat) : Nat := le64 outer (bufferId*16)
def bufferLen (outer : List UInt8) (bufferId : Nat) : Nat := le32 outer (bufferId*16+8)

/-- The task VA of a reply. -/
def InfoQuery.va (q : InfoQuery) (outer : List UInt8) : Nat :=
  u64 (bufferAddr outer q.bufferId+q.replyOffset)

/-- `lagfx_info_dispatch`: the write that it makes, with what it answers. Without a task, or
where the task does not map the address, the address is taken as physical. -/
def infoDispatch (s : State) (task : Option TaskEntry) (innerOpcode : Nat)
    (body outer : List UInt8) (resourceCount : Nat) : Option (InfoQuery × MemoryWrite) :=
  match infoDecode innerOpcode body with
  | none => none
  | some q =>
    if q.reply.length = 0 ∨ resourceCount ≤ q.bufferId ∨
        bufferLen outer q.bufferId < u64 (q.replyOffset+q.reply.length) then none
    else
      let va := q.va outer
      some (q, ⟨(task.bind fun t => taskTranslate s t va).getD va, q.reply⟩)

/-- A reply is 4 to 28 bytes. -/
theorem infoQuery_length {body reply : List UInt8} {minLen r b o : Nat} {q : InfoQuery}
    (h : infoQuery body minLen r b o reply = some q) : q.reply.length = reply.length := by
  rw [infoQuery] at h
  split_ifs at h
  cases h
  rfl

theorem infoDecode_length {innerOpcode : Nat} {body : List UInt8} {q : InfoQuery}
    (h : infoDecode innerOpcode body = some q) : q.reply.length ≤ 28 := by
  unfold infoDecode at h
  split at h
  case h_2 =>
    obtain ⟨q', hq', rfl⟩ := Option.map_eq_some_iff.1 h
    exact (infoQuery_length hq').trans_le (by decide)
  case h_4 | h_5 =>
    exact (infoQuery_length h).trans_le (by simp [window])
  case h_9 => exact (infoQuery_length h).trans_le (by simp)
  case h_14 => cases h
  all_goals exact (infoQuery_length h).trans_le (by decide)

theorem infoDispatch_cases {s : State} {task : Option TaskEntry} {innerOpcode rc : Nat}
    {body outer : List UInt8} {q : InfoQuery} {w : MemoryWrite}
    (h : infoDispatch s task innerOpcode body outer rc = some (q, w)) :
    infoDecode innerOpcode body = some q ∧ q.reply.length ≠ 0 ∧ q.bufferId < rc ∧
      u64 (q.replyOffset+q.reply.length) ≤ bufferLen outer q.bufferId ∧
      w = ⟨(task.bind fun t => taskTranslate s t (q.va outer)).getD (q.va outer), q.reply⟩ := by
  rw [infoDispatch] at h
  split at h
  · cases h
  · rename_i q' hq
    split_ifs at h with hbad
    cases h
    simp only [not_or] at hbad
    exact ⟨hq, hbad.1, Nat.lt_of_not_le hbad.2.1, Nat.not_lt.1 hbad.2.2, rfl⟩

theorem u64_lt (n : Nat) : u64 n < 2^64 := Nat.mod_lt _ (by decide)

theorem u64_add_u64 (a b : Nat) : u64 (u64 a+b) = u64 (a+b) := by
  rw [u64, u64, u64, Nat.mod_add_mod]

/-- Fewer bytes than a page are mapped one behind the other exactly when they lie in one page
or the next page follows in memory. -/
theorem mapped_iff {s : State} {t : TaskEntry} {va len gpa : Nat} (hva : va < 2^64)
    (hlen : len ≤ pageBytes) (hg : taskTranslate s t va = some gpa) :
    (∀ i < len, taskTranslate s t (u64 (va+i)) = some (gpa+i)) ↔
      (va%pageBytes+len ≤ pageBytes ∨ taskTranslate s t (u64 (va+(pageBytes-va%pageBytes))) =
        some (gpa+(pageBytes-va%pageBytes))) := by
  have hpage : va%pageBytes < pageBytes := Nat.mod_lt _ (by decide)
  constructor
  · intro h
    by_cases hin : va%pageBytes+len ≤ pageBytes
    · exact .inl hin
    · exact .inr (h _ (by omega))
  · intro h i hi
    by_cases hfirst : va%pageBytes+i < pageBytes
    · rw [taskTranslate_in_page s t hva hfirst, hg]
      rfl
    · -- the byte is on the next page, which starts at an offset of 0
      have hnext := h.resolve_left (by omega)
      have hzero : u64 (va+(pageBytes-va%pageBytes))%pageBytes = 0 := by
        simp only [u64, pageBytes]
        omega
      have hstep := taskTranslate_in_page s t (u64_lt (va+(pageBytes-va%pageBytes)))
        (j := i-(pageBytes-va%pageBytes)) (by omega)
      rw [u64_add_u64, hnext] at hstep
      have hi' : va+(pageBytes-va%pageBytes)+(i-(pageBytes-va%pageBytes)) = va+i := by omega
      rw [hi', Option.map_some] at hstep
      rw [hstep, Option.some.injEq]
      omega

/-- One write of the reply for a buffer of the table, inside the buffer where the offset of
its end is a word, at the address that the task maps or else at the address itself; and where
the task maps it, each byte is at its own translation exactly when the reply lies in one page
or the next page follows in memory. -/
structure InfoConfined (s : State) (task : Option TaskEntry) (innerOpcode : Nat)
    (body outer : List UInt8) (rc : Nat) (q : InfoQuery) (w : MemoryWrite) : Prop where
  decoded : infoDecode innerOpcode body = some q
  listed : q.bufferId < rc
  bytes : w.bytes = q.reply
  inside : q.replyOffset+q.reply.length < 2^64 →
    q.replyOffset+q.reply.length ≤ bufferLen outer q.bufferId
  flat : (∀ t, task = some t → taskTranslate s t (q.va outer) = none) → w.gpa = q.va outer
  mapped : ∀ t, task = some t → ∀ gpa, taskTranslate s t (q.va outer) = some gpa →
    w.gpa = gpa ∧
      ((∀ i < w.bytes.length, taskTranslate s t
          (u64 (bufferAddr outer q.bufferId+q.replyOffset+i)) = some (w.gpa+i)) ↔
        (q.va outer%pageBytes+w.bytes.length ≤ pageBytes ∨
          taskTranslate s t (u64 (q.va outer+(pageBytes-q.va outer%pageBytes))) =
            some (gpa+(pageBytes-q.va outer%pageBytes))))

theorem infoDispatch_confined (s : State) (task : Option TaskEntry) (innerOpcode : Nat)
    (body outer : List UInt8) (rc : Nat) (q : InfoQuery) (w : MemoryWrite)
    (h : infoDispatch s task innerOpcode body outer rc = some (q, w)) :
    InfoConfined s task innerOpcode body outer rc q w := by
  obtain ⟨hq, hne, hlt, hin, rfl⟩ := infoDispatch_cases h
  refine ⟨hq, hlt, rfl, ?_, ?_, ?_⟩
  · intro hword
    rwa [u64, Nat.mod_eq_of_lt hword] at hin
  · intro hnone
    cases task with
    | none => rfl
    | some t => simp [hnone t rfl]
  · rintro t rfl gpa hg
    have hgpa : ((some t).bind fun t => taskTranslate s t (q.va outer)).getD (q.va outer) = gpa := by
      simp [hg]
    have hlen : q.reply.length ≤ pageBytes := (infoDecode_length hq).trans (by decide)
    have hva : ∀ i, u64 (bufferAddr outer q.bufferId+q.replyOffset+i) = u64 (q.va outer+i) :=
      fun i => (u64_add_u64 _ i).symm
    refine ⟨hgpa, ?_⟩
    simp only [hgpa, hva]
    exact mapped_iff (u64_lt _) hlen hg

/- The task maps its page 0 to page 5 and its page 1 to page 9; the buffer is at 0xff0. -/
def splitMem : Nat → UInt8 := fun a =>
  if a = 0x1000 then 2 else if a = 0x1004 then 1 else if a = 0x2000 then 5
  else if a = 0x2004 then 9 else 0

def splitTask : TaskEntry := { rootPagePfn := 1 }

/- Body of 0x1c2 for buffer 0; a table of one buffer of 64 bytes at `va`. -/
def infoBody (replyOffset : Nat) : List UInt8 := putLe 4 7 ++ putLe 4 0 ++ putLe 8 replyOffset
def infoTable (va : Nat) : List UInt8 := putLe 8 va ++ putLe 4 64 ++ putLe 4 0

/-- As claimed: inside the buffer, and each byte at the translation of its address. -/
def ReplyPlaced (s : State) (task : Option TaskEntry) (outer : List UInt8) (q : InfoQuery)
    (w : MemoryWrite) : Prop :=
  q.replyOffset+q.reply.length ≤ bufferLen outer q.bufferId ∧
    ∀ i < w.bytes.length, (task.bind fun t => taskTranslate s t
      (u64 (bufferAddr outer q.bufferId+q.replyOffset+i))) = some (w.gpa+i)

instance (s : State) (task : Option TaskEntry) (outer : List UInt8) (q : InfoQuery)
    (w : MemoryWrite) : Decidable (ReplyPlaced s task outer q w) :=
  inferInstanceAs (Decidable (_ ∧ _))

/-- Without a task a reply goes to the address itself; over the end of page 0 it goes on
behind page 5 instead of to page 9. -/
theorem reply_misplaced :
    (∃ q w, infoDispatch { mem := splitMem } none 0x1c2 (infoBody 0) (infoTable 0x10) 1 =
      some (q, w) ∧ ¬ReplyPlaced { mem := splitMem } none (infoTable 0x10) q w) ∧
    ∃ q w, infoDispatch { mem := splitMem } (some splitTask) 0x1c2 (infoBody 0)
      (infoTable 0xff0) 1 = some (q, w) ∧
      ¬ReplyPlaced { mem := splitMem } (some splitTask) (infoTable 0xff0) q w :=
  ⟨⟨_, _, rfl, by decide⟩, ⟨_, _, rfl, by decide⟩⟩

theorem reply_confined_at_page : InfoConfined { mem := splitMem } (some splitTask) 0x1c2
    (infoBody 4) (infoTable 0x20) 1 ⟨7, 0, 4, computePipelineStateInfo⟩
    ⟨0x5024, computePipelineStateInfo⟩ :=
  infoDispatch_confined _ _ _ _ _ _ _ _ (by decide)

end Lagfx
