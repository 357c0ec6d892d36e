import Lagfx.Ring

/-! The drains of the compute and display channels: bounded loops that fetch a
command from the channel's ring, dispatch it, complete its stamp and publish the
new read position. -/
namespace Lagfx
open ByteMemory Fifo

/- One command a drain served: where it was read, the header the dispatcher got,
   and the states before it, after the dispatch and after the completion. -/
structure Served where
  chan : Nat
  rp : Nat
  env : Env
  hdr : CmdHeader
  before : State
  dispatched : State
  completed : State

/-- The header without the stale bytes behind the payload. -/
def Served.command (e : Served) : CmdHeader := { e.hdr with beyond := [] }

/-- Dispatch, then complete the stamp on the channel's slot. -/
def serve (chan : Nat) (dispatch : Env → State → CmdHeader → State) (env : Env) (s : State)
    (rp : Nat) (hdr : CmdHeader) : Served where
  chan := chan
  rp := rp
  env := env
  hdr := hdr
  before := s
  dispatched := dispatch env s hdr
  completed := completeStampSlot (dispatch env s hdr) chan hdr.stamp

def countSeen (s : State) : State := { s with totalCmdsSeen := u64 (s.totalCmdsSeen+1) }

@[simp] theorem countSeen_regs (s : State) : (countSeen s).regs = s.regs := rfl

/- What tells the two families apart: ring size, the code that reads the body,
   the dispatcher. -/
structure ChannelKind where
  ringSize : Nat
  readBody : State → Nat → Nat → Nat → Option (List UInt8)
  dispatch : Env → State → CmdHeader → State
  pages : 2^12 ∣ ringSize
  wraps : ringSize ∣ 2^32
  small : ringSize < 2^32
  holds : maxCmdBytes ≤ ringSize
  body : ∀ s page0Gpa rp length, length ≠ 0 →
    readBody s page0Gpa rp length = ringReadBytes s page0Gpa ringSize rp length
  frame : ∀ env s hdr, (dispatch env s hdr).regs = s.regs

theorem ChannelKind.pos (kind : ChannelKind) : 0 < kind.ringSize :=
  lt_of_lt_of_le (by decide) kind.holds

def computeRingSize : Nat := 0x10000
def displayRingSize : Nat := 0x1000

def computeKind : ChannelKind where
  ringSize := computeRingSize
  readBody s page0Gpa rp length := computeReadBody s page0Gpa computeRingSize rp length length []
  dispatch := computeDispatch
  pages := by decide
  wraps := by decide
  small := by decide
  holds := by decide
  body s page0Gpa rp length h := by
    rw [computeReadBody_eq]
    simp [ringReadBytes, h]
  frame := computeDispatch_regs

def displayKind : ChannelKind where
  ringSize := displayRingSize
  readBody s page0Gpa rp length := ringReadBytes s page0Gpa displayRingSize rp length
  dispatch := displayDispatch
  pages := by decide
  wraps := by decide
  small := by decide
  holds := by decide
  body _ _ _ _ _ := rfl
  frame := displayDispatch_regs

/- The command at `rp`, or nothing when a read fails or the length is bad. -/
def channelFetch (kind : ChannelKind) (env : Env) (s : State) (page0Gpa rp : Nat) :
    Option CmdHeader :=
  match ringReadBytes s page0Gpa kind.ringSize rp cmdHeaderBytes with
  | none => none
  | some hdrBuf =>
    if lengthOk kind.ringSize (le32 hdrBuf 4) then
      match kind.readBody s page0Gpa rp (le32 hdrBuf 4) with
      | none => none
      | some cmdBuf => some (cmdHeaderOf hdrBuf cmdBuf env.beyond)
    else none

/-- One iteration, from the state and the local `rp`. -/
def channelRound (kind : ChannelKind) (chan : Nat) (ring : FifoRing) (env : Nat → Env) (n : Nat)
    (p : State × Nat) : Option Served :=
  if p.2 = ring.writePtr then none
  else (channelFetch kind (env n) p.1 ring.page0Gpa p.2).map
    (serve chan kind.dispatch (env n) p.1 p.2)

/-- `rp + length`, absolute and wrapping at 32 bits. -/
def channelAfter (e : Served) : State × Nat := (countSeen e.completed, u32 (e.rp+e.hdr.length))

def channelLoop (kind : ChannelKind) (chan : Nat) (ring : FifoRing) (env : Nat → Env) (s : State) :
    (State × Nat) × List Served :=
  drain (channelRound kind chan ring env) channelAfter drainMaxCmds (s, ring.readPtr)

def channelDrain (kind : ChannelKind) (s : State) (chan : Nat) (env : Nat → Env) :
    State × List Served :=
  match ringFifoDescriptorRead s chan with
  | none => (s, [])
  | some ring =>
    if ring.writePtr = ring.readPtr then (s, [])
    else
      let r := channelLoop kind chan ring env s
      (ringPublishReadPtr r.1.1 ring.descGpa r.1.2, r.2)

def computeDrain : State → Nat → (Nat → Env) → State × List Served := channelDrain computeKind
def displayDrain : State → Nat → (Nat → Env) → State × List Served := channelDrain displayKind

/-- The family of a channel other than the root, as the channel door routes it. -/
def kindOf (chan : Nat) : ChannelKind := if chan < 5 then computeKind else displayKind

theorem channelFetch_some {kind : ChannelKind} {env : Env} {s : State} {page0Gpa rp : Nat}
    {hdr : CmdHeader} (h : channelFetch kind env s page0Gpa rp = some hdr) :
    ∃ hdrBuf cmdBuf, hdr = cmdHeaderOf hdrBuf cmdBuf env.beyond := by
  rw [channelFetch] at h
  cases hb : ringReadBytes s page0Gpa kind.ringSize rp cmdHeaderBytes with
  | none => simp [hb] at h
  | some hdrBuf =>
    simp only [hb] at h
    split at h
    · cases hc : kind.readBody s page0Gpa rp (le32 hdrBuf 4) with
      | none => simp [hc] at h
      | some cmdBuf =>
        simp only [hc, Option.some.injEq] at h
        exact ⟨hdrBuf, cmdBuf, h.symm⟩
    · simp at h

theorem channelRound_some {kind : ChannelKind} {chan n : Nat} {ring : FifoRing} {env : Nat → Env}
    {s : State} {rp : Nat} {e : Served} (h : channelRound kind chan ring env n (s, rp) = some e) :
    rp ≠ ring.writePtr ∧ ∃ hdr, channelFetch kind (env n) s ring.page0Gpa rp = some hdr ∧
      e = serve chan kind.dispatch (env n) s rp hdr := by
  rw [channelRound] at h
  split at h
  · simp at h
  · rename_i hne
    obtain ⟨hdr, hf, rfl⟩ := Option.map_eq_some_iff.mp h
    exact ⟨hne, hdr, hf, rfl⟩

theorem serve_regs (kind : ChannelKind) (chan : Nat) (env : Env) (s : State) (rp : Nat)
    (hdr : CmdHeader) : (serve chan kind.dispatch env s rp hdr).completed.regs = s.regs :=
  (completeStampSlot_regs _ _ _).trans (kind.frame env s hdr)

/-- Registers do not change while a channel is drained. -/
theorem channelLoop_regs (kind : ChannelKind) (chan : Nat) (ring : FifoRing) (env : Nat → Env)
    (s : State) : (channelLoop kind chan ring env s).1.1.regs = s.regs := by
  have hp := drain_path (channelRound kind chan ring env) channelAfter drainMaxCmds (s, ring.readPtr)
  refine (hp.inv (fun p => p.1.regs = s.regs) ?_ rfl).1
  rintro n ⟨t, rp⟩ e ht he
  obtain ⟨-, hdr, -, rfl⟩ := channelRound_some he
  exact (serve_regs kind chan (env n) t rp hdr).trans ht

theorem channelDrain_regs (kind : ChannelKind) (s : State) (chan : Nat) (env : Nat → Env) :
    (channelDrain kind s chan env).1.regs = s.regs := by
  rw [channelDrain]
  cases ringFifoDescriptorRead s chan with
  | none => rfl
  | some ring =>
    dsimp only
    split
    · rfl
    · exact (writeMemory_regs _ _ _).trans (channelLoop_regs kind chan ring env s)

/- What the guest may rely on: each dispatched command lies within the bytes it
   had published, counted from the read position the drain started at, and so
   does the position that is published back. -/
structure StaysPublished (kind : ChannelKind) (s : State) (chan : Nat) (env : Nat → Env)
    (ring : FifoRing) : Prop where
  commands : ∀ e ∈ (channelDrain kind s chan env).2,
    sub32 e.rp ring.readPtr+e.hdr.length ≤ sub32 ring.writePtr ring.readPtr
  position : sub32 (channelLoop kind chan ring env s).1.2 ring.readPtr ≤
    sub32 ring.writePtr ring.readPtr
  published : ring.writePtr ≠ ring.readPtr → s.writeOk (ring.descGpa+4) 4 = true →
    sub32 (leNat (read (channelDrain kind s chan env).1.mem (ring.descGpa+4) 4)) ring.readPtr ≤
      sub32 ring.writePtr ring.readPtr

/-- Before each iteration: a header that would be accepted claims no more bytes
than are left before `write_ptr`. -/
def HeadersFit (kind : ChannelKind) (chan : Nat) (ring : FifoRing) (env : Nat → Env) :
    Nat → State → Nat → Prop
  | 0, _, _ => True
  | n+1, s, rp => rp ≠ ring.writePtr → ∀ hdr,
    channelFetch kind (env n) s ring.page0Gpa rp = some hdr →
      hdr.length ≤ sub32 ring.writePtr rp ∧
        HeadersFit kind chan ring env n
          (countSeen (serve chan kind.dispatch (env n) s rp hdr).completed)
          (u32 (rp+hdr.length))

theorem sub32_self (a : Nat) : sub32 a a = 0 := by
  unfold sub32; omega

/-- Consuming `len` of the bytes that are left. -/
theorem sub32_advance {wp rp r₀ len : Nat} (hw : wp < 2^32) (hr : rp < 2^32) (h₀ : r₀ < 2^32)
    (hsum : sub32 rp r₀+sub32 wp rp = sub32 wp r₀) (hlen : len ≤ sub32 wp rp) :
    sub32 (u32 (rp+len)) r₀ = sub32 rp r₀+len ∧
      sub32 (u32 (rp+len)) r₀+sub32 wp (u32 (rp+len)) = sub32 wp r₀ := by
  simp only [sub32, u32] at *
  omega

section Span
variable {kind : ChannelKind} {chan : Nat} {ring : FifoRing} {env : Nat → Env}
  (hw : ring.writePtr < 2^32) (h₀ : ring.readPtr < 2^32)

include hw h₀ in
/-- Every command in the span exactly when every header fits, from any position
of the loop; then the loop also ends in the span. -/
theorem drain_span_iff : ∀ (n : Nat) (s : State) (rp : Nat), rp < 2^32 →
    sub32 rp ring.readPtr+sub32 ring.writePtr rp = sub32 ring.writePtr ring.readPtr →
    ((∀ e ∈ (drain (channelRound kind chan ring env) channelAfter n (s, rp)).2,
      sub32 e.rp ring.readPtr+e.hdr.length ≤ sub32 ring.writePtr ring.readPtr) ↔
        HeadersFit kind chan ring env n s rp) ∧
    (HeadersFit kind chan ring env n s rp →
      (drain (channelRound kind chan ring env) channelAfter n (s, rp)).1.2 < 2^32 ∧
      sub32 (drain (channelRound kind chan ring env) channelAfter n (s, rp)).1.2 ring.readPtr ≤
        sub32 ring.writePtr ring.readPtr) := by
  intro n
  induction n with
  | zero =>
    intro s rp hrp hsum
    refine ⟨by simp [drain, HeadersFit], fun _ => ⟨hrp, ?_⟩⟩
    show sub32 rp ring.readPtr ≤ sub32 ring.writePtr ring.readPtr
    omega
  | succ n ih =>
    intro s rp hrp hsum
    have hstop : sub32 rp ring.readPtr ≤ sub32 ring.writePtr ring.readPtr := by omega
    by_cases hne : rp = ring.writePtr
    · simp only [drain, channelRound, HeadersFit, hne, if_true, ne_eq, not_true_eq_false,
        false_implies, List.not_mem_nil, implies_true, forall_true_left, true_and]
      exact ⟨hw, le_rfl⟩
    · cases hf : channelFetch kind (env n) s ring.page0Gpa rp with
      | none =>
        refine ⟨by simp [drain, channelRound, HeadersFit, hne, hf], fun _ => ?_⟩
        simp only [drain, channelRound, hne, hf, if_false, Option.map_none]
        exact ⟨hrp, hstop⟩
      | some hdr =>
        simp only [drain, channelRound, HeadersFit, hne, hf, if_false, Option.map_some,
          List.forall_mem_cons, ne_eq, not_false_eq_true, forall_true_left, Option.some.injEq,
          forall_eq']
        have hiff : (sub32 rp ring.readPtr+hdr.length ≤ sub32 ring.writePtr ring.readPtr) ↔
            hdr.length ≤ sub32 ring.writePtr rp := by omega
        have hnext (hl : hdr.length ≤ sub32 ring.writePtr rp) :=
          ih (countSeen (serve chan kind.dispatch (env n) s rp hdr).completed)
            (u32 (rp+hdr.length)) (Nat.mod_lt _ (by norm_num))
            (sub32_advance hw hrp h₀ hsum hl).2
        constructor
        · exact ⟨fun h => ⟨hiff.mp h.1, (hnext (hiff.mp h.1)).1.mp h.2⟩,
            fun h => ⟨hiff.mpr h.1, (hnext h.1).1.mpr h.2⟩⟩
        · exact fun h => (hnext h.1).2 h.2

end Span

theorem fifoDescriptor_bounds {s : State} {chan : Nat} {ring : FifoRing}
    (h : ringFifoDescriptorRead s chan = some ring) :
    ring.descGpa = s.fifoDescGpa chan ∧ ring.writePtr < 2^32 ∧ ring.readPtr < 2^32 := by
  rw [ringFifoDescriptorRead] at h
  split at h
  · simp at h
  · cases hd : s.readMemory (s.fifoDescGpa chan) fifoDescBytes with
    | none => simp [hd] at h
    | some desc =>
      simp only [hd] at h
      split at h
      · simp at h
      · obtain rfl := Option.some.inj h
        exact ⟨rfl, le32_lt desc 0, le32_lt desc 4⟩

theorem channelDrain_eq {kind : ChannelKind} {s : State} {chan : Nat} {env : Nat → Env}
    {ring : FifoRing} (h : ringFifoDescriptorRead s chan = some ring)
    (hne : ring.writePtr ≠ ring.readPtr) :
    channelDrain kind s chan env = (ringPublishReadPtr (channelLoop kind chan ring env s).1.1
      ring.descGpa (channelLoop kind chan ring env s).1.2, (channelLoop kind chan ring env s).2) := by
  simp [channelDrain, h, hne]

/-- A drain that finds the ring caught up serves nothing. -/
theorem channelDrain_served {kind : ChannelKind} {s : State} {chan : Nat} {env : Nat → Env}
    {ring : FifoRing} (h : ringFifoDescriptorRead s chan = some ring) :
    (channelDrain kind s chan env).2 = (channelLoop kind chan ring env s).2 := by
  by_cases hne : ring.writePtr = ring.readPtr
  · have hl : channelLoop kind chan ring env s = ((s, ring.readPtr), []) :=
      drain_eq_of_none fun n => by simp [channelRound, hne]
    rw [hl]
    simp [channelDrain, h, hne]
  · rw [channelDrain_eq h hne]

theorem publishReadPtr_word {s : State} {descGpa rp : Nat} (hrp : rp < 2^32)
    (hok : s.writeOk (descGpa+4) 4 = true) :
    leNat (read (ringPublishReadPtr s descGpa rp).mem (descGpa+4) 4) = rp := by
  have hr := read_write_same s.mem (descGpa+4) (putLe 4 rp)
  rw [putLe_length] at hr
  have hm : (ringPublishReadPtr s descGpa rp).mem = write s.mem (descGpa+4) (putLe 4 rp) := by
    simp [ringPublishReadPtr, State.writeMemory, hok]
  rw [hm, hr]
  exact leNat_putLe_of_lt (lt_of_lt_of_eq hrp (by norm_num))

/- A guest that published 12 bytes on channel 5, with a header that claims 24. -/
def overshootState : State :=
  { ringSharedPagePfn := 1
    mem := write (write (write (fun _ => 0) 0x1450
      (putLe 4 12++putLe 4 0++putLe 4 0++putLe 4 5++putLe 4 2)) 0x2000 (putLe 4 3)) 0x3000
      (putLe 2 0x10++putLe 2 0++putLe 4 24++putLe 4 1) }

end Lagfx
