import Lagfx.RootDrain

/-! The root ring as a queue of commands, over whole runs of appends and doorbells
at BAR0+0x1008. -/
namespace Lagfx
open ByteMemory Fifo

/-- From counter `c` on, offset plus length stays within 32 bits. -/
def SumsFit (size : Nat) : Nat → List WireCmd → Prop
  | _, [] => True
  | c, k::q => c%size+k.length < 2^32 ∧ SumsFit size (c+k.length) q

theorem sumsFit_append {size : Nat} : ∀ {p q : List WireCmd} {c : Nat},
    SumsFit size c p → SumsFit size (c+bytesOf p) q → SumsFit size c (p++q) := by
  intro p
  induction p with
  | nil => intro q c _ hq; exact hq
  | cons k p ih =>
    intro q c hp hq
    rw [bytesOf_cons, ← Nat.add_assoc] at hq
    exact ⟨hp.1, ih hp.2 hq⟩

/- The ring holds the commands `q` from counter `c` on. -/
structure RootHolds (base size : Nat) (s : State) (c : Nat) (q : List WireCmd) : Prop where
  dma : s.DmaOk
  armed : s.ringArmed = true
  baseGpa : s.ringBaseGpa = base
  ringSize : s.ringSize = size
  readPtr : s.readPtr = c%size
  laid : Laid WireCmd.bytes (rootView s.mem base size) c q
  room : bytesOf q < size
  sums : SumsFit size c q

/-- The dispatched command leaves the ring bytes as they were. -/
def RootSpares (base size : Nat) (e : Served) : Prop :=
  ∀ x, base ≤ x → x < base+size → e.completed.mem x = e.before.mem x

theorem rootView_congr {m m' : Nat → UInt8} {base size : Nat} (hpos : 0 < size)
    (h : ∀ x, base ≤ x → x < base+size → m' x = m x) (c : Nat) :
    rootView m' base size c = rootView m base size c := by
  have hc := Nat.mod_lt c hpos
  exact h _ (by omega) (by omega)

theorem add_mod_ne {c b size : Nat} (hb : 0 < b) (hlt : b < size) : (c+b)%size ≠ c%size := by
  intro h
  have hz := Nat.sub_mod_eq_zero_of_mod_eq h
  rw [Nat.add_sub_cancel_left, Nat.mod_eq_of_lt hlt] at hz
  omega

section Round
variable {ring : RootRing} {env : Nat → Env} {s : State} {c : Nat} {k : WireCmd}
  {q : List WireCmd}

theorem RootHolds.fetch (h : RootHolds ring.base ring.size s c (k::q)) (env : Env) :
    rootFetch env s ring (c%ring.size) = some { k.header with beyond := env.beyond } := by
  have hroom := h.room
  rw [bytesOf_cons] at hroom
  have hb := k.length_bounds
  have hpos : 0 < ring.size := by omega
  obtain ⟨hk, -⟩ := laid_cons.mp h.laid
  have hhdr : read (rootView s.mem ring.base ring.size) c cmdHeaderBytes = k.headerBytes := by
    rw [← k.headerBytes_length]
    exact (read_append_iff.mp hk).1
  have hlen : le32 k.headerBytes 4 = k.length :=
    congrArg CmdHeader.length (cmdHeaderOf_bytes k env.beyond)
  have hok : lengthOk ring.size k.length := ⟨hb.1, hb.2, by omega⟩
  rw [k.bytes_length] at hk
  rw [rootFetch]
  rw [rootRead_view h.dma hpos c (by omega), hhdr]
  simp only [hlen, hok, if_true]
  rw [rootRead_view h.dma hpos c (by omega), hk, Option.map_some, cmdHeaderOf_bytes]

theorem RootHolds.round_nil (h : RootHolds ring.base ring.size s c [])
    (hw : ring.writePtr = c%ring.size) (n : Nat) : rootRound ring env n s = none := by
  simp [rootRound, h.readPtr, hw]

theorem RootHolds.round_cons (h : RootHolds ring.base ring.size s c (k::q))
    (hw : ring.writePtr = (c+bytesOf (k::q))%ring.size) (n : Nat) :
    rootRound ring env n s = some (serve 0 rootDispatch (env n) s (c%ring.size)
      { k.header with beyond := (env n).beyond }) := by
  have hb := k.length_bounds
  simp only [cmdHeaderBytes] at hb
  have hne : c%ring.size ≠ ring.writePtr := by
    rw [hw]
    exact (add_mod_ne (by rw [bytesOf_cons]; omega) h.room).symm
  have hf := h.fetch (env n)
  have hmod : c%ring.size%ring.size = c%ring.size := Nat.mod_mod c ring.size
  simp [rootRound, h.readPtr, hne, hmod, hf]

theorem RootHolds.next (h : RootHolds ring.base ring.size s c (k::q)) {env : Env}
    {hdr : CmdHeader} (hlen : hdr.length = k.length)
    (hs : RootSpares ring.base ring.size (serve 0 rootDispatch env s (c%ring.size) hdr)) :
    RootHolds ring.base ring.size (rootAfter ring (serve 0 rootDispatch env s (c%ring.size) hdr))
      (c+k.length) q := by
  have hroom := h.room
  rw [bytesOf_cons] at hroom
  have hregs : (serve 0 rootDispatch env s (c%ring.size) hdr).completed.regs = s.regs :=
    (completeStampSlot_regs _ _ _).trans (rootDispatch_regs env s hdr)
  have hdma : (serve 0 rootDispatch env s (c%ring.size) hdr).completed.DmaOk :=
    regs_dmaOk hregs h.dma
  refine ⟨hdma, (congrArg Regs.ringArmed hregs).trans h.armed,
    (congrArg Regs.ringBaseGpa hregs).trans h.baseGpa,
    (congrArg Regs.ringSize hregs).trans h.ringSize, ?_, ?_, by omega, h.sums.2⟩
  · show u32 (c%ring.size+hdr.length)%ring.size = (c+k.length)%ring.size
    rw [hlen, u32, Nat.mod_eq_of_lt h.sums.1, Nat.mod_add_mod]
  · have hl := (laid_cons.mp h.laid).2
    rw [k.bytes_length] at hl
    exact laid_congr (fun i _ => rootView_congr (by omega) hs _) hl

end Round

/-- The position counted back from the end of the queue, which stays put during
a drain. -/
def RootQueued (ring : RootRing) (last : Nat) (s : State) (q : List WireCmd) : Prop :=
  bytesOf q ≤ last ∧ RootHolds ring.base ring.size s (last-bytesOf q) q

theorem RootQueued.serve {ring : RootRing} {env : Nat → Env} {last n : Nat} {s : State}
    {k : WireCmd} {q : List WireCmd} (h : RootQueued ring last s (k::q))
    (hw : ring.writePtr = last%ring.size) :
    ∃ e, rootRound ring env n s = some e ∧ e.command = k.header ∧
      (RootSpares ring.base ring.size e → RootQueued ring last (rootAfter ring e) q) := by
  obtain ⟨hle, h⟩ := h
  have hend : last-bytesOf (k::q)+bytesOf (k::q) = last := by omega
  refine ⟨_, h.round_cons (by rw [hend]; exact hw) n, rfl, fun hs => ?_⟩
  have hnext := h.next rfl hs
  have hpos : last-bytesOf (k::q)+k.length = last-bytesOf q := by
    rw [bytesOf_cons] at hle ⊢
    omega
  rw [hpos] at hnext
  rw [bytesOf_cons] at hle
  exact ⟨by omega, hnext⟩

theorem rootDrain_eq {base size c : Nat} {s : State} {q : List WireCmd}
    (h : RootHolds base size s c q) (hbase : base ≠ 0) (env : Nat → Env) :
    rootDrain s env = drain (rootRound s.rootRing env) (rootAfter s.rootRing) drainMaxCmds s := by
  have hroom := h.room
  have hsize : s.ringSize ≠ 0 := by rw [h.ringSize]; omega
  simp [rootDrain, h.armed, h.baseGpa, hsize, hbase]

/-- What one root drain does with the commands outstanding. -/
theorem rootDrain_serves {base size c : Nat} {s : State} {env : Nat → Env} {q : List WireCmd}
    (h : RootHolds base size s c q) (hbase : base ≠ 0) (hw : s.writePtr = (c+bytesOf q)%size)
    (hs : ∀ e ∈ (rootDrain s env).2, RootSpares base size e) :
    (rootDrain s env).2.map Served.command = (q.take drainMaxCmds).map WireCmd.header ∧
      RootHolds base size (rootDrain s env).1 (c+bytesOf (q.take drainMaxCmds))
        (q.drop drainMaxCmds) := by
  rw [rootDrain_eq h hbase] at hs ⊢
  obtain rfl := h.baseGpa
  obtain rfl := h.ringSize
  have hq : RootQueued s.rootRing (c+bytesOf q) s q :=
    ⟨Nat.le_add_left _ _, by rw [Nat.add_sub_cancel]; exact h⟩
  have htake : (drain (rootRound s.rootRing env) (rootAfter s.rootRing) drainMaxCmds s).2.map
        Served.command = (q.take drainMaxCmds).map WireCmd.header ∧
      RootQueued s.rootRing (c+bytesOf q)
        (drain (rootRound s.rootRing env) (rootAfter s.rootRing) drainMaxCmds s).1
        (q.drop drainMaxCmds) :=
    drain_takes (RootQueued s.rootRing (c+bytesOf q)) (fun n _ ht => ht.2.round_nil hw n)
      (fun _ _ _ _ ht => ht.serve hw) drainMaxCmds s q hq hs
  obtain ⟨hc, -, hh⟩ := htake
  have hsplit := bytesOf_take_drop drainMaxCmds q
  have hpos : c+bytesOf q-bytesOf (q.drop drainMaxCmds) = c+bytesOf (q.take drainMaxCmds) := by
    omega
  rw [hpos] at hh
  exact ⟨hc, hh⟩

/-- Quiet commands spare a root ring that cell 0 is not on. -/
theorem root_quiet_spares {base size c : Nat} {s : State} {env : Nat → Env} {q : List WireCmd}
    (h : RootHolds base size s c q) (hbase : base ≠ 0) (hw : s.writePtr = (c+bytesOf q)%size)
    (hq : ∀ k ∈ q, k.Quiet 0)
    (hcell : ∀ x, base ≤ x → x < base+size →
      x < s.stampCellAddr 0 ∨ s.stampCellAddr 0+4 ≤ x) :
    ∀ e ∈ (rootDrain s env).2, RootSpares base size e := by
  rw [rootDrain_eq h hbase]
  obtain rfl := h.baseGpa
  obtain rfl := h.ringSize
  refine drain_forall (fun t q' => RootQueued s.rootRing (c+bytesOf q) t q' ∧
    t.ringBasePfn = s.ringBasePfn ∧ ∀ k ∈ q', k.Quiet 0) ?_ ?_ drainMaxCmds s q
    ⟨⟨Nat.le_add_left _ _, by rw [Nat.add_sub_cancel]; exact h⟩, rfl, hq⟩
  · rintro n t ⟨ht, -, -⟩
    exact ht.2.round_nil hw n
  · rintro n t k q' ⟨ht, hpfn, hquiet⟩
    obtain ⟨hk, hrest⟩ := List.forall_mem_cons.mp hquiet
    obtain ⟨e, he, -, hnext⟩ := @RootQueued.serve s.rootRing env _ n t k q' ht hw
    obtain rfl := Option.some.inj (he.symm.trans (ht.2.round_cons (by
      rw [Nat.sub_add_cancel ht.1]; exact hw) n))
    have hsp : RootSpares s.ringBaseGpa s.ringSize (serve 0 rootDispatch (env n) t
        ((c+bytesOf q-bytesOf (k::q'))%s.rootRing.size)
        { k.header with beyond := (env n).beyond }) := by
      intro x hx hx'
      have hout := hcell x hx hx'
      exact Quiet.served_mem hk (by simpa only [State.stampCellAddr, hpfn] using hout)
    refine ⟨_, he, hsp, hnext hsp, ?_, hrest⟩
    have hregs := (completeStampSlot_regs (rootDispatch (env n) t
      { k.header with beyond := (env n).beyond }) 0 k.stamp).trans (rootDispatch_regs _ _ _)
    exact (congrArg Regs.ringBasePfn hregs).trans hpfn

/- A run from the producer's side: the device and the byte totals so far. -/
structure RootRun where
  state : State
  produced : Nat
  dispatched : Nat

/- The guest appends `new` behind what it produced so far, with less than a ring
   outstanding. It leaves the ring registers and the outstanding bytes alone. -/
structure RootAppends (base size : Nat) (r : RootRun) (new : List WireCmd) (r' : RootRun) :
    Prop where
  dma : r'.state.DmaOk
  armed : r'.state.ringArmed = r.state.ringArmed
  baseGpa : r'.state.ringBaseGpa = r.state.ringBaseGpa
  ringSize : r'.state.ringSize = r.state.ringSize
  readPtr : r'.state.readPtr = r.state.readPtr
  produced : r'.produced = r.produced+bytesOf new
  dispatched : r'.dispatched = r.dispatched
  room : r.produced+bytesOf new < r.dispatched+size
  keeps : ∀ i < r.produced-r.dispatched, rootView r'.state.mem base size (r.dispatched+i) =
    rootView r.state.mem base size (r.dispatched+i)
  laid : Laid WireCmd.bytes (rootView r'.state.mem base size) r.produced new
  sums : SumsFit size r.produced new

def dispatchedBytes (served : List Served) : Nat := (served.map fun e => e.hdr.length).sum

/- The guest rings BAR0+0x1008 with everything it produced, and no DMA write of
   the drain lands in the ring. -/
structure RootDoors (base size : Nat) (r : RootRun) (served : List Served) (r' : RootRun) :
    Prop where
  door : ∃ env, doorbellHandleWrite r.state 0x1008 (r.produced%size) env = (r'.state, served)
  produced : r'.produced = r.produced
  dispatched : r'.dispatched = r.dispatched+dispatchedBytes served
  spares : ∀ e ∈ served, RootSpares base size e

/-- The ring holds exactly the commands between the two totals. -/
def RootRun.Holds (base size : Nat) (r : RootRun) (q : List WireCmd) : Prop :=
  RootHolds base size r.state r.dispatched q ∧ r.produced = r.dispatched+bytesOf q

theorem dispatchedBytes_eq {served : List Served} {ks : List WireCmd}
    (h : served.map Served.command = ks.map WireCmd.header) : dispatchedBytes served = bytesOf ks := by
  have hl := congrArg (fun l => (l.map CmdHeader.length).sum) h
  simp only [List.map_map] at hl
  have hk : (ks.map (CmdHeader.length ∘ WireCmd.header)).sum = bytesOf ks := by
    simp [bytesOf, List.length_flatMap, Function.comp_def, WireCmd.bytes_length, WireCmd.header]
  exact hl.trans hk

section Run
variable {base size : Nat} (hbase : base ≠ 0) {r r' : RootRun} {q : List WireCmd}

theorem RootRun.Holds.append {new : List WireCmd} (h : r.Holds base size q)
    (ha : RootAppends base size r new r') : r'.Holds base size (q++new) := by
  obtain ⟨hh, htotal⟩ := h
  have hout : r.produced-r.dispatched = bytesOf q := by omega
  have hroom := ha.room
  refine ⟨⟨ha.dma, ha.armed.trans hh.armed, ha.baseGpa.trans hh.baseGpa,
    ha.ringSize.trans hh.ringSize, ?_, ?_, ?_, ?_⟩, ?_⟩
  · rw [ha.readPtr, ha.dispatched]
    exact hh.readPtr
  · rw [ha.dispatched]
    refine laid_append.mpr ⟨laid_congr (fun i hi => ha.keeps i (by rw [hout]; exact hi)) hh.laid, ?_⟩
    have hl := ha.laid
    rw [htotal] at hl
    exact hl
  · rw [bytesOf_append]
    omega
  · rw [ha.dispatched]
    refine sumsFit_append hh.sums ?_
    rw [← htotal]
    exact ha.sums
  · rw [ha.produced, ha.dispatched, bytesOf_append]
    omega

include hbase in
theorem RootRun.Holds.door {served : List Served} (h : r.Holds base size q)
    (hd : RootDoors base size r served r') :
    served.map Served.command = (q.take drainMaxCmds).map WireCmd.header ∧
      r'.Holds base size (q.drop drainMaxCmds) := by
  obtain ⟨hh, htotal⟩ := h
  obtain ⟨env, hdoor⟩ := hd.door
  have hdrain : rootDrain { r.state with writePtr := r.produced%size, currentChanId := 0 } env =
      (r'.state, served) := (primary_door_eq r.state _ env).symm.trans hdoor
  have hstart : RootHolds base size
      { r.state with writePtr := r.produced%size, currentChanId := 0 } r.dispatched q :=
    ⟨hh.dma, hh.armed, hh.baseGpa, hh.ringSize, hh.readPtr, hh.laid, hh.room, hh.sums⟩
  obtain ⟨hc, hend⟩ := @rootDrain_serves base size r.dispatched _ env q hstart hbase
    (by rw [← htotal]) (by rw [hdrain]; exact hd.spares)
  rw [hdrain] at hc hend
  have hbytes := dispatchedBytes_eq hc
  have hsplit := bytesOf_take_drop drainMaxCmds q
  refine ⟨hc, ?_, ?_⟩
  · rw [hd.dispatched, hbytes]
    exact hend
  · rw [hd.produced, hd.dispatched, hbytes]
    omega

end Run

/-- The ghost total is the bytes of the commands served. -/
theorem history_dispatched {base size : Nat} {r₀ r : RootRun} {produced : List WireCmd}
    {served : List Served}
    (h : History (RootAppends base size) (RootDoors base size) r₀ produced served r) :
    r.dispatched = r₀.dispatched+dispatchedBytes served := by
  induction h with
  | start => rfl
  | append _ ha ih => rw [ha.dispatched, ih]
  | serve _ hd ih =>
    rw [hd.dispatched, ih, dispatchedBytes, dispatchedBytes, dispatchedBytes, List.map_append,
      List.sum_append, Nat.add_assoc]

/-- Over every run of appends and doorbells, the root drain dispatches a prefix of
what was produced and keeps `read_ptr` at its bytes modulo the ring size; a
doorbell that finds at most 128 commands outstanding leaves none. -/
theorem root_ring_fifo (base size : Nat) (hbase : base ≠ 0) (s₀ : State)
    (h₀ : RootHolds base size s₀ 0 []) (produced : List WireCmd) (served : List Served) (r : RootRun)
    (h : History (RootAppends base size) (RootDoors base size) ⟨s₀, 0, 0⟩ produced served r) :
    served.map Served.command <+: produced.map WireCmd.header ∧
      r.state.readPtr = dispatchedBytes served%size ∧
      ∀ more r', RootDoors base size r more r' →
        produced.length ≤ served.length+drainMaxCmds →
        (served++more).map Served.command = produced.map WireCmd.header := by
  obtain ⟨done, q, rfl, hserved, hq⟩ :=
    h.conserves (RootRun.Holds base size) (fun _ _ _ _ => RootRun.Holds.append)
      (fun _ _ _ _ hq hd => ⟨drainMaxCmds, hq.door hbase hd⟩) ⟨h₀, rfl⟩
  have hcount : served.length = done.length := by
    have hl := congrArg List.length hserved
    simpa using hl
  refine ⟨?_, ?_, ?_⟩
  · rw [hserved, List.map_append]
    exact List.prefix_append _ _
  · have hd := history_dispatched h
    rw [hq.1.readPtr, hd, Nat.zero_add]
  · intro more r' hd hle
    have hmore := (hq.door hbase hd).1
    rw [List.take_of_length_le (by simp at hle; omega)] at hmore
    rw [List.map_append, List.map_append, hserved, hmore]

theorem nop_argCount_lt : 0 < 2^16 := by decide
theorem nop_stamp_lt (stamp : Fin (2^32)) : stamp.val < 2^32 := stamp.isLt
theorem nop_fits : cmdHeaderBytes+([] : List UInt8).length ≤ maxCmdBytes := by decide
theorem one_lt_stamps : 1 < 2^32 := by decide

/-- CmdNOP, a header alone. -/
def nopCmd (stamp : Fin (2^32)) : WireCmd where
  opcode := 0x0e
  argCount8b := 0
  stamp := stamp
  payload := []
  opcode_lt := by decide
  argCount8b_lt := nop_argCount_lt
  stamp_lt := nop_stamp_lt stamp
  fits := nop_fits

theorem nopCmd_quiet (stamp : Fin (2^32)) : (nopCmd stamp).Quiet 0 := by
  intro env s beyond
  have hop : rootOp (nopCmd stamp).header.opcode = .logged := by rfl
  constructor
  · rintro ⟨-, h | h⟩
    · exact absurd (hop.symm.trans h.2) (by decide)
    · exact absurd h.1 (by decide)
  · simp [replyRange, hop]

/- An armed ring of 64 bytes at 0x5000, behind the stamp page at 0x4000. -/
def rootState (bytes : List UInt8) : State :=
  { ringArmed := true
    ringSize := 64
    ringBasePfn := 4
    ringStartOffset := 0x1000
    ringBaseGpa := 0x5000
    mem := write (fun _ => 0) 0x5000 bytes }

theorem rootState_holds {q : List WireCmd} (hroom : bytesOf q < 64)
    (hlaid : Laid WireCmd.bytes (rootView (rootState (q.flatMap WireCmd.bytes)).mem 0x5000 64) 0 q)
    (hsums : SumsFit 64 0 q) :
    RootHolds 0x5000 64 (rootState (q.flatMap WireCmd.bytes)) 0 q :=
  ⟨⟨fun _ _ => rfl, fun _ _ => rfl⟩, rfl, rfl, rfl, rfl, hlaid, hroom, hsums⟩

def nopRung : State :=
  { rootState (nopCmd ⟨1, one_lt_stamps⟩).bytes with writePtr := 12%64, currentChanId := 0 }

/-- One NOP appended and rung for is dispatched. -/
theorem root_ring_fifo_nop : ∃ served r', RootDoors 0x5000 64
    ⟨rootState (nopCmd 1).bytes, 12, 0⟩ served r' ∧
      served.map Served.command = [(nopCmd 1).header] := by
  have h₀ : RootHolds 0x5000 64 (rootState []) 0 [] := rootState_holds (q := []) (by decide) rfl trivial
  have hholds : RootHolds 0x5000 64 (rootState (nopCmd 1).bytes) 0 [nopCmd 1] :=
    rootState_holds (q := [nopCmd 1]) (by decide) (by unfold Laid; decide)
      ⟨by decide, trivial⟩
  have happ : RootAppends 0x5000 64 ⟨rootState [], 0, 0⟩ [nopCmd 1]
      ⟨rootState (nopCmd 1).bytes, 12, 0⟩ :=
    ⟨hholds.dma, rfl, rfl, rfl, rfl, rfl, rfl, by decide,
      fun i hi => absurd hi (Nat.not_lt_zero i), hholds.laid, hholds.sums⟩
  have hrung : RootHolds 0x5000 64 nopRung 0 [nopCmd 1] :=
    ⟨hholds.dma, rfl, rfl, rfl, rfl, hholds.laid, hholds.room, hholds.sums⟩
  have hspares : ∀ e ∈ (rootDrain nopRung fun _ => {}).2, RootSpares 0x5000 64 e := by
    refine root_quiet_spares hrung (by decide) (by decide) (fun k hk => ?_) (fun x hx _ => ?_)
    · obtain rfl := List.mem_singleton.mp hk
      exact nopCmd_quiet 1
    · exact Or.inr (le_trans (by decide) hx)
  have hdoor : RootDoors 0x5000 64 ⟨rootState (nopCmd 1).bytes, 12, 0⟩
      (rootDrain nopRung fun _ => {}).2
      ⟨(rootDrain nopRung fun _ => {}).1, 12,
        0+dispatchedBytes (rootDrain nopRung fun _ => {}).2⟩ :=
    ⟨⟨fun _ => {}, primary_door_eq _ _ _⟩, rfl, rfl, hspares⟩
  have hrun := root_ring_fifo 0x5000 64 (by decide) (rootState []) h₀ ([]++[nopCmd 1]) [] _
    (History.append History.start happ)
  exact ⟨_, _, hdoor, hrun.2.2 _ _ hdoor (by decide)⟩

/-- CmdGetDeviceInfo with its reply address. -/
def infoCmd (outOffset : Nat) : WireCmd where
  opcode := 0x0a
  argCount8b := 2
  stamp := 1
  payload := putLe 4 0++putLe 8 outOffset++putLe 4 0
  opcode_lt := by decide
  argCount8b_lt := by decide
  stamp_lt := by decide
  fits := by simp [cmdHeaderBytes, maxCmdBytes]

/-- A query whose reply goes to the stamp field of the next command: the NOP was
produced with stamp 7 and is dispatched with stamp 1. -/
theorem reply_overwrites_ring : ¬ ∀ base size s env q, base ≠ 0 → RootHolds base size s 0 q →
    (doorbellHandleWrite s 0x1008 (bytesOf q%size) env).2.map Served.command <+:
      q.map WireCmd.header := by
  intro h
  have hholds : RootHolds 0x5000 64 (rootState ((infoCmd 0x5024).bytes++(nopCmd 7).bytes)) 0
      [infoCmd 0x5024, nopCmd 7] := by
    have hh := rootState_holds (q := [infoCmd 0x5024, nopCmd 7]) (by decide)
      (by unfold Laid; decide) ⟨by decide, by decide, trivial⟩
    simpa using hh
  have hp := h _ _ _ (fun _ => {}) _ (by decide) hholds
  revert hp
  decide +kernel

end Lagfx
