import Lagfx.ChannelDrain

/-! A channel ring as a queue of commands. The drain serves the commands the guest
laid out, in order, as long as no DMA write made on the way lands in the ring. -/
namespace Lagfx
open ByteMemory Fifo

def bytesOf (q : List WireCmd) : Nat := (q.flatMap WireCmd.bytes).length

@[simp] theorem bytesOf_nil : bytesOf [] = 0 := rfl

@[simp] theorem bytesOf_cons (k : WireCmd) (q : List WireCmd) :
    bytesOf (k::q) = k.length+bytesOf q := by
  simp [bytesOf, WireCmd.bytes_length]

@[simp] theorem bytesOf_append (p q : List WireCmd) : bytesOf (p++q) = bytesOf p+bytesOf q := by
  simp [bytesOf]

theorem bytesOf_take_drop (n : Nat) (q : List WireCmd) :
    bytesOf (q.take n)+bytesOf (q.drop n) = bytesOf q := by
  rw [← bytesOf_append, List.take_append_drop]

/-- Every shell transfer succeeds. -/
def State.DmaOk (s : State) : Prop :=
  (∀ gpa n, s.readOk gpa n = true) ∧ ∀ gpa n, s.writeOk gpa n = true

/-- `x` is an address of the PFN array or of a data page. -/
def OnData (kind : ChannelKind) (ring : FifoRing) (m : Nat → UInt8) (x : Nat) : Prop :=
  (ring.page0Gpa ≤ x ∧ x < ring.page0Gpa+kind.ringSize/2^12*4) ∨
    ∃ i < kind.ringSize/2^12, ringPfn m ring.page0Gpa i*2^12 ≤ x ∧
      x < ringPfn m ring.page0Gpa i*2^12+2^12

def OnDescriptor (ring : FifoRing) (x : Nat) : Prop :=
  ring.descGpa ≤ x ∧ x < ring.descGpa+fifoDescBytes

section Frame
variable {kind : ChannelKind} {ring : FifoRing} {m m' : Nat → UInt8}
  (h : ∀ x, OnData kind ring m x → m' x = m x)

include h in
theorem ringPfn_congr {i : Nat} (hi : i < kind.ringSize/2^12) :
    ringPfn m' ring.page0Gpa i = ringPfn m ring.page0Gpa i := by
  simp only [ringPfn]
  rw [read_congr fun x hx hx' => h x (Or.inl ⟨by omega, by omega⟩)]

include h in
/-- A memory that agrees on the ring shows the same bytes at every counter. -/
theorem ringView_congr (c : Nat) :
    ringView m' ring.page0Gpa kind.ringSize c = ringView m ring.page0Gpa kind.ringSize c := by
  have hi : c%kind.ringSize/2^12 < kind.ringSize/2^12 :=
    Nat.div_lt_div_of_lt_of_dvd kind.pages (Nat.mod_lt c kind.pos)
  rw [ringView]
  rw [ringPfn_congr h hi]
  exact h _ (Or.inr ⟨_, hi, by omega, by omega⟩)

include h in
theorem ringMapped_congr (hm : RingMapped m ring.page0Gpa kind.ringSize) :
    RingMapped m' ring.page0Gpa kind.ringSize := by
  intro i hi
  rw [ringPfn_congr h hi]
  exact hm i hi

end Frame

theorem ringView_u32 (kind : ChannelKind) (m : Nat → UInt8) (page0Gpa c i : Nat) :
    ringView m page0Gpa kind.ringSize (u32 c+i) = ringView m page0Gpa kind.ringSize (c+i) := by
  have hmod : (u32 c+i)%kind.ringSize = (c+i)%kind.ringSize := by
    rw [Nat.add_mod, u32, Nat.mod_mod_of_dvd c kind.wraps, ← Nat.add_mod]
  simp only [ringView]
  rw [hmod]

/- The ring holds the commands `q` from `rp` on. `m` is the memory the drain
   started from; the current one agrees with it on the ring. -/
structure RingHolds (kind : ChannelKind) (ring : FifoRing) (m : Nat → UInt8) (s : State) (rp : Nat)
    (q : List WireCmd) : Prop where
  dma : s.DmaOk
  same : ∀ x, OnData kind ring m x → s.mem x = m x
  desc : ∀ x, OnDescriptor ring x → s.mem x = m x
  mapped : RingMapped m ring.page0Gpa kind.ringSize
  laid : Laid WireCmd.bytes (ringView m ring.page0Gpa kind.ringSize) rp q
  tail : ring.writePtr = u32 (rp+bytesOf q)
  room : bytesOf q ≤ kind.ringSize
  word : rp < 2^32

theorem RingHolds.fetch {kind : ChannelKind} {ring : FifoRing} {m : Nat → UInt8} {s : State}
    {rp : Nat} {k : WireCmd} {q : List WireCmd} (h : RingHolds kind ring m s rp (k::q)) (env : Env) :
    channelFetch kind env s ring.page0Gpa rp = some { k.header with beyond := env.beyond } := by
  have hmap := ringMapped_congr h.same h.mapped
  have hview : ringView s.mem ring.page0Gpa kind.ringSize =
      ringView m ring.page0Gpa kind.ringSize := funext (ringView_congr h.same)
  have hread (len : Nat) (hl : len ≠ 0) : ringReadBytes s ring.page0Gpa kind.ringSize rp len =
      some (read (ringView m ring.page0Gpa kind.ringSize) rp len) := by
    rw [ringReadBytes_view kind.pos kind.pages kind.wraps h.dma.1 hmap rp hl, hview]
  obtain ⟨hk, -⟩ := laid_cons.mp h.laid
  have hhdr : read (ringView m ring.page0Gpa kind.ringSize) rp cmdHeaderBytes = k.headerBytes := by
    rw [← k.headerBytes_length]
    exact (read_append_iff.mp hk).1
  have hb := k.length_bounds
  have hne : k.length ≠ 0 := by simp only [cmdHeaderBytes] at hb; omega
  have hlen : le32 k.headerBytes 4 = k.length :=
    congrArg CmdHeader.length (cmdHeaderOf_bytes k env.beyond)
  have hok : lengthOk kind.ringSize k.length := ⟨hb.1, hb.2, hb.2.trans kind.holds⟩
  rw [k.bytes_length] at hk
  rw [channelFetch]
  rw [hread cmdHeaderBytes (by decide), hhdr]
  simp only [hlen, hok, if_true, kind.body _ _ _ _ hne, hread k.length hne, hk]
  rw [cmdHeaderOf_bytes]

/-- The dispatched command leaves the ring as it was. -/
def Spares (kind : ChannelKind) (ring : FifoRing) (m : Nat → UInt8) (e : Served) : Prop :=
  ∀ x, OnData kind ring m x ∨ OnDescriptor ring x → e.completed.mem x = e.before.mem x

theorem regs_dmaOk {s t : State} (h : t.regs = s.regs) (hs : s.DmaOk) : t.DmaOk := by
  have hr : t.readOk = s.readOk := congrArg Regs.readOk h
  have hw : t.writeOk = s.writeOk := congrArg Regs.writeOk h
  rw [State.DmaOk]
  rw [hr, hw]
  exact hs

theorem RingHolds.next {kind : ChannelKind} {chan : Nat} {ring : FifoRing} {m : Nat → UInt8}
    {s : State} {rp : Nat} {k : WireCmd} {q : List WireCmd}
    (h : RingHolds kind ring m s rp (k::q)) {env : Env} {hdr : CmdHeader}
    (hlen : hdr.length = k.length)
    (hs : Spares kind ring m (serve chan kind.dispatch env s rp hdr)) :
    RingHolds kind ring m (countSeen (serve chan kind.dispatch env s rp hdr).completed)
      (u32 (rp+hdr.length)) q := by
  have hroom := h.room
  have htail := h.tail
  rw [bytesOf_cons] at hroom htail
  refine ⟨regs_dmaOk (serve_regs kind chan env s rp hdr) h.dma, ?_, ?_, h.mapped, ?_, ?_, ?_, ?_⟩
  · intro x hx
    exact (hs x (Or.inl hx)).trans (h.same x hx)
  · intro x hx
    exact (hs x (Or.inr hx)).trans (h.desc x hx)
  · have hl := (laid_cons.mp h.laid).2
    rw [k.bytes_length] at hl
    rw [hlen]
    exact laid_congr (fun i _ => ringView_u32 kind m ring.page0Gpa (rp+k.length) i) hl
  · rw [htail, hlen]
    simp only [u32]
    omega
  · omega
  · exact Nat.mod_lt _ (by norm_num)

section Round
variable {kind : ChannelKind} {chan : Nat} {ring : FifoRing} {env : Nat → Env} {m : Nat → UInt8}
  {s : State} {rp : Nat}

theorem RingHolds.caught_up_iff {q : List WireCmd} (h : RingHolds kind ring m s rp q) :
    rp = ring.writePtr ↔ q = [] := by
  have htail := h.tail
  have hroom := h.room
  have hword := h.word
  have hsmall := kind.small
  cases q with
  | nil =>
    rw [bytesOf_nil] at htail
    rw [u32] at htail
    simp only [iff_true]
    omega
  | cons k q =>
    have hb := k.length_bounds
    rw [bytesOf_cons] at htail hroom
    simp only [cmdHeaderBytes] at hb
    rw [u32] at htail
    simp only [reduceCtorEq, iff_false]
    omega

theorem RingHolds.round_nil (h : RingHolds kind ring m s rp []) (n : Nat) :
    channelRound kind chan ring env n (s, rp) = none := by
  have heq := h.caught_up_iff.mpr rfl
  simp [channelRound, heq]

theorem RingHolds.round_cons {k : WireCmd} {q : List WireCmd}
    (h : RingHolds kind ring m s rp (k::q)) (n : Nat) :
    channelRound kind chan ring env n (s, rp) = some (serve chan kind.dispatch (env n) s rp
      { k.header with beyond := (env n).beyond }) := by
  have hne : rp ≠ ring.writePtr := fun heq => by simpa using h.caught_up_iff.mp heq
  have hf := h.fetch (env n)
  simp [channelRound, hne, hf]

end Round

/-- What one drain does with the commands outstanding. -/
theorem channelLoop_serves {kind : ChannelKind} {chan : Nat} {ring : FifoRing} {env : Nat → Env}
    {s : State} {q : List WireCmd} (h : RingHolds kind ring s.mem s ring.readPtr q)
    (hs : ∀ e ∈ (channelLoop kind chan ring env s).2, Spares kind ring s.mem e) :
    (channelLoop kind chan ring env s).2.map Served.command =
        (q.take drainMaxCmds).map WireCmd.header ∧
      RingHolds kind ring s.mem (channelLoop kind chan ring env s).1.1
        (channelLoop kind chan ring env s).1.2 (q.drop drainMaxCmds) := by
  refine drain_takes (fun p q => RingHolds kind ring s.mem p.1 p.2 q) ?_ ?_
    drainMaxCmds (s, ring.readPtr) q h hs
  · intro n p hp
    exact RingHolds.round_nil hp n
  · intro n p k q hp
    exact ⟨_, RingHolds.round_cons hp n, rfl, fun hsp => RingHolds.next hp rfl hsp⟩

theorem RingHolds.position {kind : ChannelKind} {ring : FifoRing} {m m' : Nat → UInt8} {s s' : State}
    {rp rp' n : Nat} {q : List WireCmd} (h : RingHolds kind ring m s rp q)
    (h' : RingHolds kind ring m' s' rp' (q.drop n)) : rp' = u32 (rp+bytesOf (q.take n)) := by
  have htail := h.tail
  have htail' := h'.tail
  have hword := h'.word
  have hsplit := bytesOf_take_drop n q
  simp only [u32] at *
  omega

/-- The fields of a descriptor are the words of guest memory at its address. -/
theorem fifoDescriptor_words {s : State} {chan : Nat} (hdma : s.DmaOk) :
    ringFifoDescriptorRead s chan =
      if s.ringSharedPagePfn = 0 ∨ chan = 0 ∨ leNat (read s.mem (s.fifoDescGpa chan+0x10) 4) = 0 then
        none
      else some
        { descGpa := s.fifoDescGpa chan
          writePtr := leNat (read s.mem (s.fifoDescGpa chan) 4)
          readPtr := leNat (read s.mem (s.fifoDescGpa chan+4) 4)
          page0Gpa := leNat (read s.mem (s.fifoDescGpa chan+0x10) 4)*2^12 } := by
  have hw (i : Nat) (hi : i+4 ≤ fifoDescBytes) :
      le32 (read s.mem (s.fifoDescGpa chan) fifoDescBytes) i =
        leNat (read s.mem (s.fifoDescGpa chan+i) 4) := by
    rw [le32]
    rw [window_read _ _ _ _ _ hi]
  have h0 := hw 0 (by decide)
  rw [Nat.add_zero] at h0
  rw [ringFifoDescriptorRead]
  rw [readMemory_eq hdma.1]
  simp only [h0, hw 4 (by decide), hw 0x10 (by decide)]
  by_cases hs : s.ringSharedPagePfn = 0
  · simp [hs]
  · by_cases hc : chan = 0
    · simp [hc]
    · simp [hs, hc]

/-- Two states with the same descriptor words read the same descriptor, but for
the read position. -/
theorem fifoDescriptor_moved {s s' : State} {chan rp : Nat} {ring : FifoRing}
    (h : ringFifoDescriptorRead s chan = some ring) (hdma : s.DmaOk) (hdma' : s'.DmaOk)
    (hpfn : s'.ringSharedPagePfn = s.ringSharedPagePfn)
    (hwp : read s'.mem ring.descGpa 4 = read s.mem ring.descGpa 4)
    (hrp : leNat (read s'.mem (ring.descGpa+4) 4) = rp)
    (hpage : read s'.mem (ring.descGpa+0x10) 4 = read s.mem (ring.descGpa+0x10) 4) :
    ringFifoDescriptorRead s' chan = some { ring with readPtr := rp } := by
  have hd : s'.fifoDescGpa chan = s.fifoDescGpa chan := by simp [State.fifoDescGpa, hpfn]
  rw [fifoDescriptor_words hdma] at h
  split at h
  · simp at h
  · rename_i hz
    obtain rfl := Option.some.inj h
    dsimp only at hwp hrp hpage
    rw [fifoDescriptor_words hdma', hd, hpfn, hwp, hrp, hpage, if_neg hz]

/-- A channel whose ring holds exactly `q`. -/
def ChannelHolds (kind : ChannelKind) (chan : Nat) (s : State) (q : List WireCmd) : Prop :=
  ∃ ring, ringFifoDescriptorRead s chan = some ring ∧ RingHolds kind ring s.mem s ring.readPtr q

/- The contract of one drain that finds `q` outstanding. -/
structure DrainsExactly (kind : ChannelKind) (s : State) (chan : Nat) (env : Nat → Env)
    (ring : FifoRing) (q : List WireCmd) : Prop where
  commands : (channelDrain kind s chan env).2.map Served.command =
    (q.take drainMaxCmds).map WireCmd.header
  payloads : ∀ e ∈ (channelDrain kind s chan env).2,
    e.hdr.payloadSize = e.hdr.length-cmdHeaderBytes
  readPtr : leNat (read (channelDrain kind s chan env).1.mem (ring.descGpa+4) 4) =
    u32 (ring.readPtr+bytesOf (q.take drainMaxCmds))
  writePtr : read (channelDrain kind s chan env).1.mem ring.descGpa 4 = read s.mem ring.descGpa 4

section Drain
variable {kind : ChannelKind} {chan : Nat} {env : Nat → Env} {s : State} {ring : FifoRing}
  {q : List WireCmd} (hring : ringFifoDescriptorRead s chan = some ring)
  (h : RingHolds kind ring s.mem s ring.readPtr q)
  (hs : ∀ e ∈ (channelDrain kind s chan env).2, Spares kind ring s.mem e)

include hring h hs in
theorem channelDrain_serves :
    (channelDrain kind s chan env).2.map Served.command = (q.take drainMaxCmds).map WireCmd.header ∧
      RingHolds kind ring s.mem (channelLoop kind chan ring env s).1.1
        (u32 (ring.readPtr+bytesOf (q.take drainMaxCmds))) (q.drop drainMaxCmds) ∧
      (channelLoop kind chan ring env s).1.2 =
        u32 (ring.readPtr+bytesOf (q.take drainMaxCmds)) := by
  rw [channelDrain_served hring] at hs ⊢
  obtain ⟨hc, hh⟩ := channelLoop_serves h hs
  have hp := h.position hh
  exact ⟨hc, by rwa [← hp], hp⟩

include hring h hs in
theorem channelDrain_descriptor :
    leNat (read (channelDrain kind s chan env).1.mem (ring.descGpa+4) 4) =
        u32 (ring.readPtr+bytesOf (q.take drainMaxCmds)) ∧
      ∀ x, OnDescriptor ring x → x < ring.descGpa+4 ∨ ring.descGpa+8 ≤ x →
        (channelDrain kind s chan env).1.mem x = s.mem x := by
  obtain ⟨-, hh, hp⟩ := channelDrain_serves hring h hs
  by_cases hne : ring.writePtr = ring.readPtr
  · -- nothing outstanding: the descriptor stays as it is
    have hq : q = [] := h.caught_up_iff.mp hne.symm
    have hd : channelDrain kind s chan env = (s, []) := by simp [channelDrain, hring, hne]
    refine ⟨?_, fun x _ _ => by rw [hd]⟩
    rw [fifoDescriptor_words h.dma] at hring
    split at hring
    · simp at hring
    · obtain rfl := Option.some.inj hring
      have hword := h.word
      rw [hd, hq]
      exact (Nat.mod_eq_of_lt hword).symm
  · rw [channelDrain_eq hring hne, hp]
    refine ⟨publishReadPtr_word (Nat.mod_lt _ (by norm_num)) (hh.dma.2 _ _), ?_⟩
    intro x hx hout
    rw [← hh.desc x hx]
    exact writeMemory_mem_outside _ _ _ _ (by simpa [Nat.add_assoc] using hout)

include hring h hs in
theorem channelDrain_exact : DrainsExactly kind s chan env ring q := by
  obtain ⟨hc, -, -⟩ := channelDrain_serves hring h hs
  obtain ⟨hrp, hout⟩ := channelDrain_descriptor hring h hs
  refine ⟨hc, ?_, hrp, read_congr fun x hx hx' => hout x ⟨hx, ?_⟩ (Or.inl hx')⟩
  · intro e he
    have hm : e.command ∈ (q.take drainMaxCmds).map WireCmd.header := by
      rw [← hc]
      exact List.mem_map_of_mem he
    obtain ⟨k, -, hk⟩ := List.mem_map.mp hm
    have hsize : k.header.payloadSize = e.command.payloadSize := by rw [hk]
    have hlen : k.header.length = e.command.length := by rw [hk]
    change e.command.payloadSize = e.command.length-cmdHeaderBytes
    rw [← hsize, ← hlen]
    rfl
  · simp only [fifoDescBytes]
    omega

/-- The published read position falls outside the ring's pages. -/
def PublishSpares (kind : ChannelKind) (ring : FifoRing) (m : Nat → UInt8) : Prop :=
  ∀ x, ring.descGpa+4 ≤ x → x < ring.descGpa+8 → ¬ OnData kind ring m x

include hring h hs in
theorem channelDrain_mem_data (hp : PublishSpares kind ring s.mem) {x : Nat}
    (hx : OnData kind ring s.mem x) : (channelDrain kind s chan env).1.mem x = s.mem x := by
  obtain ⟨-, hh, -⟩ := channelDrain_serves hring h hs
  by_cases hne : ring.writePtr = ring.readPtr
  · have hd : channelDrain kind s chan env = (s, []) := by simp [channelDrain, hring, hne]
    rw [hd]
  · rw [channelDrain_eq hring hne, ← hh.same x hx]
    apply writeMemory_mem_outside
    have hn := hp x
    simp only [putLe_length]
    by_contra hin
    exact hn (by omega) (by omega) hx

include hring h hs in
/-- After the drain the ring holds what was not served. -/
theorem channelDrain_holds (hp : PublishSpares kind ring s.mem) :
    ChannelHolds kind chan (channelDrain kind s chan env).1 (q.drop drainMaxCmds) := by
  obtain ⟨-, hh, -⟩ := channelDrain_serves hring h hs
  obtain ⟨hrp, hout⟩ := channelDrain_descriptor hring h hs
  have hregs := channelDrain_regs kind s chan env
  have hdma := regs_dmaOk hregs h.dma
  have hdata := fun x hx => channelDrain_mem_data hring h hs hp (x := x) hx
  have hwords (i : Nat) (hi : i+4 ≤ fifoDescBytes) (hne : i+4 ≤ 4 ∨ 8 ≤ i) :
      read (channelDrain kind s chan env).1.mem (ring.descGpa+i) 4 =
        read s.mem (ring.descGpa+i) 4 :=
    read_congr fun x hx hx' => hout x ⟨by omega, by omega⟩ (by omega)
  have hring' := fifoDescriptor_moved hring h.dma hdma (congrArg Regs.ringSharedPagePfn hregs)
    (hwords 0 (by decide) (by omega)) hrp (hwords 0x10 (by decide) (by omega))
  refine ⟨_, hring', hdma, fun x _ => rfl, fun x _ => rfl, ringMapped_congr hdata h.mapped, ?_,
    hh.tail, hh.room, hh.word⟩
  exact laid_congr (fun i _ => ringView_congr hdata _) hh.laid

end Drain

/- The guest appends `new`: it leaves the bytes still outstanding and the read
   position alone, writes the commands behind them and moves `write_ptr`. What else
   it changes in memory is up to it, the ring's pages included. -/
structure GuestAppends (kind : ChannelKind) (chan : Nat) (s : State) (new : List WireCmd)
    (s' : State) (ring ring' : FifoRing) : Prop where
  before : ringFifoDescriptorRead s chan = some ring
  after : ringFifoDescriptorRead s' chan = some ring'
  dma : s'.DmaOk
  readPtr : ring'.readPtr = ring.readPtr
  writePtr : ring'.writePtr = u32 (ring.writePtr+bytesOf new)
  room : sub32 ring.writePtr ring.readPtr+bytesOf new ≤ kind.ringSize
  mapped : RingMapped s'.mem ring'.page0Gpa kind.ringSize
  keeps : ∀ i < sub32 ring.writePtr ring.readPtr,
    ringView s'.mem ring'.page0Gpa kind.ringSize (ring.readPtr+i) =
      ringView s.mem ring.page0Gpa kind.ringSize (ring.readPtr+i)
  laid : Laid WireCmd.bytes (ringView s'.mem ring'.page0Gpa kind.ringSize) ring.writePtr new

/-- A doorbell on the channel, with every DMA write of the drain off the ring. -/
def DoorServes (kind : ChannelKind) (chan : Nat) (s : State) (served : List Served) (s' : State) :
    Prop :=
  ∃ env, channelDrain kind s chan env = (s', served) ∧
    ∀ ring ∈ ringFifoDescriptorRead s chan,
      (∀ e ∈ served, Spares kind ring s.mem e) ∧ PublishSpares kind ring s.mem

theorem RingHolds.span {kind : ChannelKind} {ring : FifoRing} {m : Nat → UInt8} {s : State}
    {q : List WireCmd} (h : RingHolds kind ring m s ring.readPtr q) :
    sub32 ring.writePtr ring.readPtr = bytesOf q := by
  have htail := h.tail
  have hroom := h.room
  have hword := h.word
  have hsmall := kind.small
  rw [sub32]
  rw [u32] at htail
  omega

theorem ChannelHolds.append {kind : ChannelKind} {chan : Nat} {s s' : State}
    {q new : List WireCmd} (h : ChannelHolds kind chan s q)
    (ha : ∃ ring ring', GuestAppends kind chan s new s' ring ring') :
    ChannelHolds kind chan s' (q++new) := by
  obtain ⟨ring, hring, h⟩ := h
  obtain ⟨ring₁, ring', ha⟩ := ha
  obtain rfl : ring₁ = ring := Option.some.inj (ha.before.symm.trans hring)
  have hspan := h.span
  have hroom := ha.room
  rw [hspan] at hroom
  have hkeep : Laid WireCmd.bytes (ringView s'.mem ring'.page0Gpa kind.ringSize)
      ring₁.readPtr q :=
    laid_congr (fun i hi => ha.keeps i (by rw [hspan]; exact hi)) h.laid
  have hnew : Laid WireCmd.bytes (ringView s'.mem ring'.page0Gpa kind.ringSize)
      (ring₁.readPtr+bytesOf q) new := by
    have hl := ha.laid
    rw [h.tail] at hl
    exact laid_congr (fun i _ => (ringView_u32 kind s'.mem ring'.page0Gpa _ i).symm) hl
  refine ⟨ring', ha.after, ha.dma, fun x _ => rfl, fun x _ => rfl, ha.mapped, ?_, ?_, ?_, ?_⟩
  · rw [ha.readPtr]
    exact laid_append.mpr ⟨hkeep, hnew⟩
  · rw [ha.writePtr, ha.readPtr, h.tail, bytesOf_append]
    simp only [u32]
    omega
  · rw [bytesOf_append]
    exact hroom
  · rw [ha.readPtr]
    exact h.word

theorem ChannelHolds.serve {kind : ChannelKind} {chan : Nat} {s s' : State} {q : List WireCmd}
    {served : List Served} (h : ChannelHolds kind chan s q)
    (hd : DoorServes kind chan s served s') :
    ∃ n, served.map Served.command = (q.take n).map WireCmd.header ∧
      ChannelHolds kind chan s' (q.drop n) := by
  obtain ⟨ring, hring, h⟩ := h
  obtain ⟨env, heq, hclear⟩ := hd
  obtain ⟨hs, hp⟩ := hclear ring hring
  have hs' : ∀ e ∈ (channelDrain kind s chan env).2, Spares kind ring s.mem e := by
    rw [heq]
    exact hs
  have hserved := (channelDrain_serves hring h hs').1
  have hholds := channelDrain_holds hring h hs' hp
  rw [heq] at hserved hholds
  exact ⟨drainMaxCmds, hserved, hholds⟩

/-- A command whose handler writes no guest memory. -/
def WireCmd.Quiet (chan : Nat) (k : WireCmd) : Prop :=
  ∀ env s beyond, ¬ ExecRuns chan { k.header with beyond := beyond } ∧
    replyRange chan env s { k.header with beyond := beyond } = none

theorem kindOf_dispatch {chan : Nat} (hc : chan ≠ 0) :
    (kindOf chan).dispatch = dispatchCommand chan := by
  rw [kindOf, dispatchCommand]
  split_ifs <;> rfl

/-- Serving a quiet command changes the stamp cell of its channel only. -/
theorem Quiet.served_mem {chan rp x : Nat} {env : Env} {s : State} {k : WireCmd}
    (hk : k.Quiet chan) (hx : x < s.stampCellAddr chan ∨ s.stampCellAddr chan+4 ≤ x) :
    (serve chan (dispatchCommand chan) env s rp
      { k.header with beyond := env.beyond }).completed.mem x = s.mem x := by
  obtain ⟨hexec, hreply⟩ := hk env s env.beyond
  have hpfn : (dispatchCommand chan env s { k.header with beyond := env.beyond }).ringBasePfn =
      s.ringBasePfn := congrArg Regs.ringBasePfn (dispatchCommand_regs chan env s _)
  refine (completeStampSlot_frame _ _ _ x ?_).trans (dispatchCommand_mem hexec ?_)
  · simpa only [State.stampCellAddr, hpfn] using hx
  · rw [hreply]
    simp [Outside]

/-- Quiet commands spare a ring that the stamp cell of the channel is not on. -/
theorem quiet_spares {chan : Nat} (hc : chan ≠ 0) {env : Nat → Env} {s : State} {ring : FifoRing}
    {q : List WireCmd} (h : RingHolds (kindOf chan) ring s.mem s ring.readPtr q)
    (hq : ∀ k ∈ q, k.Quiet chan)
    (hcell : ∀ x, OnData (kindOf chan) ring s.mem x ∨ OnDescriptor ring x →
      x < s.stampCellAddr chan ∨ s.stampCellAddr chan+4 ≤ x) :
    ∀ e ∈ (channelLoop (kindOf chan) chan ring env s).2, Spares (kindOf chan) ring s.mem e := by
  refine drain_forall (fun p q => RingHolds (kindOf chan) ring s.mem p.1 p.2 q ∧
    p.1.regs = s.regs ∧ ∀ k ∈ q, k.Quiet chan) ?_ ?_ drainMaxCmds (s, ring.readPtr) q ⟨h, rfl, hq⟩
  · rintro n p ⟨hp, -, -⟩
    exact hp.round_nil n
  · rintro n p k q ⟨hp, hregs, hquiet⟩
    obtain ⟨hk, hrest⟩ := List.forall_mem_cons.mp hquiet
    have hsp : Spares (kindOf chan) ring s.mem (serve chan (kindOf chan).dispatch (env n) p.1 p.2
        { k.header with beyond := (env n).beyond }) := by
      intro x hx
      have hpfn : p.1.ringBasePfn = s.ringBasePfn := congrArg Regs.ringBasePfn hregs
      have hout := hcell x hx
      rw [kindOf_dispatch hc]
      exact Quiet.served_mem hk (by simpa only [State.stampCellAddr, hpfn] using hout)
    refine ⟨_, hp.round_cons n, hsp, hp.next rfl hsp, ?_, hrest⟩
    exact (serve_regs (kindOf chan) chan (env n) p.1 p.2 _).trans hregs

/-- The ring of a channel 1..15 is a FIFO of commands. One drain dispatches exactly
the first 128 of those outstanding and publishes what it consumed; over any
sequence of appends and doorbells, what was dispatched followed by what is
outstanding is what was produced. -/
theorem channel_ring_fifo (chan : Nat) :
    (∀ s env ring q, ringFifoDescriptorRead s chan = some ring →
      RingHolds (kindOf chan) ring s.mem s ring.readPtr q →
      (∀ e ∈ (channelDrain (kindOf chan) s chan env).2, Spares (kindOf chan) ring s.mem e) →
      DrainsExactly (kindOf chan) s chan env ring q) ∧
    ∀ s₀ produced served s, ChannelHolds (kindOf chan) chan s₀ [] →
      History (fun s new s' => ∃ ring ring', GuestAppends (kindOf chan) chan s new s' ring ring')
        (DoorServes (kindOf chan) chan) s₀ produced served s →
      ∃ done outstanding, produced = done++outstanding ∧
        served.map Served.command = done.map WireCmd.header ∧
        ChannelHolds (kindOf chan) chan s outstanding := by
  constructor
  · intro s env ring q hring h hs
    exact channelDrain_exact hring h hs
  · intro s₀ produced served s h₀ hrun
    exact hrun.conserves (ChannelHolds (kindOf chan) chan) (fun _ _ _ _ => ChannelHolds.append)
      (fun _ _ _ _ => ChannelHolds.serve) h₀

/-- CmdDisplayAck, a header alone. -/
def ackCmd (stamp : Fin (2^32)) : WireCmd where
  opcode := 0x10
  argCount8b := 0
  stamp := stamp
  payload := []
  opcode_lt := by decide
  argCount8b_lt := by decide
  stamp_lt := stamp.isLt
  fits := by decide

theorem ackCmd_quiet (stamp : Fin (2^32)) : (ackCmd stamp).Quiet 5 := by
  intro env s beyond
  have hop : displayOp (ackCmd stamp).header.opcode = .logged := by rfl
  constructor
  · rintro ⟨-, h | h⟩
    · exact absurd h.1 (by decide)
    · exact absurd h.2.1 (by decide)
  · simp [replyRange, hop]

/- Channel 5 with its ring page at 0x3000. `basePfn` places the stamp page. -/
def ackState (basePfn rp wp a b : Nat) : State :=
  { ringBasePfn := basePfn
    ringSharedPagePfn := 1
    mem := write (write (write (write (fun _ => 0) 0x1450
      (putLe 4 wp++putLe 4 rp++putLe 4 0++putLe 4 5++putLe 4 2)) 0x2000 (putLe 4 3))
      (0x3000+a) (ackCmd 1).bytes) (0x3000+b) (ackCmd 7).bytes }

def ackRing (rp wp : Nat) : FifoRing :=
  { descGpa := 0x1450, writePtr := wp, readPtr := rp, page0Gpa := 0x2000 }

theorem ackState_holds {basePfn rp wp a b : Nat}
    (hpfn : ringPfn (ackState basePfn rp wp a b).mem 0x2000 0 = 3)
    (hlaid : Laid WireCmd.bytes (ringView (ackState basePfn rp wp a b).mem 0x2000 0x1000) rp
      [ackCmd 1, ackCmd 7]) (htail : wp = u32 (rp+24)) (hword : rp < 2^32) :
    RingHolds (kindOf 5) (ackRing rp wp) (ackState basePfn rp wp a b).mem
      (ackState basePfn rp wp a b) rp [ackCmd 1, ackCmd 7] := by
  refine ⟨⟨fun _ _ => rfl, fun _ _ => rfl⟩, fun _ _ => rfl, fun _ _ => rfl, ?_, hlaid, htail, ?_, hword⟩
  · intro i hi
    obtain rfl : i = 0 := Nat.lt_one_iff.mp hi
    rw [show (ackRing rp wp).page0Gpa = 0x2000 from rfl, hpfn]
    decide
  · decide

/-- Two commands across the ring end and the 32-bit counter wrap at once. -/
theorem channel_ring_fifo_wraps :
    DrainsExactly (kindOf 5) (ackState 9 0xfffffff4 12 0xff4 0) 5 (fun _ => {})
      (ackRing 0xfffffff4 12) [ackCmd 1, ackCmd 7] := by
  have hring : ringFifoDescriptorRead (ackState 9 0xfffffff4 12 0xff4 0) 5 =
      some (ackRing 0xfffffff4 12) := by decide
  have hpfn : ringPfn (ackState 9 0xfffffff4 12 0xff4 0).mem 0x2000 0 = 3 := by decide
  have hholds := ackState_holds hpfn (by unfold Laid; decide) (by decide) (by decide)
  refine (channel_ring_fifo 5).1 _ _ _ _ hring hholds ?_
  rw [channelDrain_served hring]
  refine quiet_spares (by decide) hholds (fun k hk => ?_) (fun x hx => ?_)
  · rcases List.mem_cons.mp hk with rfl | hk
    · exact ackCmd_quiet 1
    · obtain rfl := List.mem_singleton.mp hk
      exact ackCmd_quiet 7
  · -- the stamp page is page 9, the ring lives below
    have hcell : (ackState 9 0xfffffff4 12 0xff4 0).stampCellAddr 5 = 0x9014 := by decide
    rw [hcell]
    rcases hx with (⟨-, hx⟩ | ⟨i, hi, -, hx⟩) | ⟨-, hx⟩
    · exact Or.inl (lt_trans hx (by decide))
    · obtain rfl : i = 0 := Nat.lt_one_iff.mp hi
      rw [show (ackRing 0xfffffff4 12).page0Gpa = 0x2000 from rfl, hpfn] at hx
      omega
    · exact Or.inl (lt_trans hx (by decide))

/-- No two ring pages share a PFN. -/
def PagesDistinct (kind : ChannelKind) (ring : FifoRing) (m : Nat → UInt8) : Prop :=
  ∀ i < kind.ringSize/2^12, ∀ j < kind.ringSize/2^12,
    ringPfn m ring.page0Gpa i = ringPfn m ring.page0Gpa j → i = j

/-- Without a condition on DMA writes the ring is no FIFO: with the stamp page on
the ring page, completing the first command on slot 5 rewrites the stamp of the
second, which is dispatched with stamp 8 instead of 7. -/
theorem stamp_page_aliases_ring : ¬ ∀ s env ring q, ringFifoDescriptorRead s 5 = some ring →
    PagesDistinct (kindOf 5) ring s.mem →
    RingHolds (kindOf 5) ring s.mem s ring.readPtr q →
    DrainsExactly (kindOf 5) s 5 env ring q := by
  intro h
  have hring : ringFifoDescriptorRead (ackState 3 0 24 0 12) 5 = some (ackRing 0 24) := by
    decide
  have hpfn : ringPfn (ackState 3 0 24 0 12).mem 0x2000 0 = 3 := by decide
  have hdistinct : PagesDistinct (kindOf 5) (ackRing 0 24) (ackState 3 0 24 0 12).mem :=
    fun i hi j hj _ => (Nat.lt_one_iff.mp hi).trans (Nat.lt_one_iff.mp hj).symm
  have hholds := ackState_holds hpfn (by unfold Laid; decide) (by decide) (by decide)
  have hc := (h _ (fun _ => {}) _ _ hring hdistinct hholds).commands
  revert hc
  decide

end Lagfx
