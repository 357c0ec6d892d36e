import Lagfx.RootFifo

/-! Stamps against execution, over whole runs of the device: guest memory changes
and BAR0 writes, drains of every channel included. A cell follows the commands
of its channel as long as none of them completes twice. -/
namespace Lagfx
open ByteMemory Runs Fifo

/- What the guest does to the device. -/
inductive DeviceEvent where
  | memory (mem : Nat → UInt8)
  | mmio (offset value : Nat) (env : Nat → Env)

def deviceStep (s : State) : DeviceEvent → State × List Served
  | .memory mem => ({ s with mem := mem }, [])
  | .mmio offset value env => doorbellHandleWrite s offset value env

/-- Every command served in a run, in order. -/
def deviceTrace : State → List DeviceEvent → List Served
  | _, [] => []
  | s, ev::evs => (deviceStep s ev).2++deviceTrace (deviceStep s ev).1 evs

/-- The guest writes no stamp cell and does not move the stamp page. -/
def DeviceEvent.LeavesCells (s : State) : DeviceEvent → Prop
  | .memory mem => ∀ slot < maxChannels, { s with mem := mem }.stampCell slot = s.stampCell slot
  | .mmio offset value _ => offset = 0x1030 → value = s.ringBasePfn

/-- The stamps a run completes on one channel. -/
def stampsOn (chan : Nat) (served : List Served) : List Nat :=
  (served.filter fun e => e.chan = chan).map fun e => e.hdr.stamp

/-- On each channel the stamps still to come increase, from above the cell. -/
def StampsIncrease (s : State) (served : List Served) : Prop :=
  ∀ chan < maxChannels, (s.stampCell chan::stampsOn chan served).Pairwise (· < ·)

/- The contract at one command `e` with `post` still to be dispatched. -/
structure CellFollows (e : Served) (post : List Served) : Prop where
  reached : e.completed.stampCell e.chan = e.hdr.stamp
  before : ∀ e' ∈ e::post, e.before.stampCell e'.chan < e'.hdr.stamp
  dispatched : ∀ e' ∈ e::post, e.dispatched.stampCell e'.chan < e'.hdr.stamp
  completed : ∀ e' ∈ post, e.completed.stampCell e'.chan < e'.hdr.stamp

def CellsFollow (served : List Served) : Prop :=
  ∀ pre e post, served = pre++e::post → CellFollows e post

/-- The command is no CmdExecIndirect2 that gets to complete its stamp itself, and
its reply does not land in a stamp cell. -/
def Served.LeavesCells (e : Served) : Prop :=
  ¬ ExecRuns e.chan e.hdr ∧ ∀ slot < maxChannels, ∀ x, e.before.stampCellAddr slot ≤ x →
    x < e.before.stampCellAddr slot+4 → Outside x (replyRange e.chan e.env e.before e.hdr)

/- Same stamp page, same cells, same shell. -/
structure SameCells (s t : State) : Prop where
  page : t.ringBasePfn = s.ringBasePfn
  readOk : t.readOk = s.readOk
  writeOk : t.writeOk = s.writeOk
  cells : ∀ slot < maxChannels, t.stampCell slot = s.stampCell slot

theorem SameCells.refl (s : State) : SameCells s s := ⟨rfl, rfl, rfl, fun _ _ => rfl⟩

theorem SameCells.trans {s t u : State} (h : SameCells s t) (h' : SameCells t u) : SameCells s u :=
  ⟨h'.page.trans h.page, h'.readOk.trans h.readOk, h'.writeOk.trans h.writeOk,
    fun slot hs => (h'.cells slot hs).trans (h.cells slot hs)⟩

theorem sameCells_of_regs {s t : State} (h : t.regs = s.regs)
    (hm : ∀ slot < maxChannels, ∀ x, s.stampCellAddr slot ≤ x → x < s.stampCellAddr slot+4 →
      t.mem x = s.mem x) : SameCells s t :=
  ⟨congrArg Regs.ringBasePfn h, congrArg Regs.readOk h, congrArg Regs.writeOk h,
    fun slot hs => stampCell_congr (congrArg Regs.ringBasePfn h) slot (hm slot hs)⟩

/-- The record of a command some drain really served. -/
structure Served.Lawful (e : Served) : Prop where
  chan_lt : e.chan < maxChannels
  stamp_lt : e.hdr.stamp < 2^32
  dispatched_eq : e.dispatched = dispatchCommand e.chan e.env e.before e.hdr
  completed_eq : e.completed = completeStampSlot e.dispatched e.chan e.hdr.stamp

/-- A stretch of a run: between the commands served no cell changes. -/
inductive Timeline : State → List Served → State → Prop where
  | quiet {s t : State} : SameCells s t → Timeline s [] t
  | serve {s t : State} {e : Served} {post : List Served} : SameCells s e.before → e.Lawful →
    Timeline e.completed post t → Timeline s (e::post) t

theorem Timeline.from_same {s s' t : State} {served : List Served} (h : SameCells s s')
    (ht : Timeline s' served t) : Timeline s served t := by
  cases ht with
  | quiet hq => exact Timeline.quiet (h.trans hq)
  | serve hq hl hrest => exact Timeline.serve (h.trans hq) hl hrest

theorem Timeline.append {s t u : State} {served more : List Served} (h : Timeline s served t)
    (h' : Timeline t more u) : Timeline s (served++more) u := by
  induction h with
  | quiet hq => exact h'.from_same hq
  | serve hq hl _ ih => exact Timeline.serve hq hl (ih h')

theorem serve_lawful {chan : Nat} (hc : chan < maxChannels) (env : Env) (s : State) (rp : Nat)
    {hdr : CmdHeader} (hs : hdr.stamp < 2^32) :
    (serve chan (dispatchCommand chan) env s rp hdr).Lawful :=
  ⟨hc, hs, rfl, rfl⟩

theorem channelAfter_sameCells (e : Served) : SameCells e.completed (channelAfter e).1 :=
  ⟨rfl, rfl, rfl, fun _ _ => rfl⟩

theorem rootAfter_sameCells (ring : RootRing) (e : Served) :
    SameCells e.completed (rootAfter ring e) :=
  ⟨rfl, rfl, rfl, fun _ _ => rfl⟩

section Drains

theorem channelLoop_timeline {chan : Nat} (hc : chan ≠ 0) (hlt : chan < maxChannels)
    {ring : FifoRing} {env : Nat → Env} {p p' : State × Nat} {served : List Served}
    (h : Path (channelRound (kindOf chan) chan ring env) channelAfter p served p') :
    Timeline p.1 served p'.1 := by
  induction h with
  | done p => exact Timeline.quiet (SameCells.refl _)
  | @serve n p p' e served hr _ ih =>
    obtain ⟨-, hdr, hf, rfl⟩ := channelRound_some hr
    obtain ⟨hdrBuf, cmdBuf, rfl⟩ := channelFetch_some hf
    rw [kindOf_dispatch hc] at ih ⊢
    refine Timeline.serve (SameCells.refl _) (serve_lawful hlt _ _ _ (le32_lt hdrBuf 8)) ?_
    exact ih.from_same (channelAfter_sameCells _)

/-- The published read position lies in the descriptor part of a page, the cells
at the start of one. -/
theorem cell_off_descriptor {a b slot c x : Nat} (hpage : a ≤ b ∨ b+4096 ≤ a) (hslot : slot < 16)
    (hc : c < 15) (hx : a+slot*4 ≤ x) (hx' : x < a+slot*4+4) :
    x < b+1024+c*20+4 ∨ b+1024+c*20+4+4 ≤ x := by
  rcases hpage with hle | hge
  · left
    omega
  · right
    omega

theorem publish_sameCells (s : State) {chan : Nat} (hlt : chan < maxChannels) (pfn rp : Nat) :
    SameCells s (ringPublishReadPtr s (pfn*2^12+fifoDescBaseOffset+(chan-1)*fifoDescBytes) rp) := by
  refine sameCells_of_regs (writeMemory_regs _ _ _) fun slot hs x hx hx' => ?_
  apply writeMemory_mem_outside
  rw [putLe_length]
  have hc : chan-1 < 15 := by simp only [maxChannels] at hlt; omega
  have hpage : s.ringBasePfn*2^12 ≤ pfn*2^12 ∨ pfn*2^12+4096 ≤ s.ringBasePfn*2^12 := by omega
  exact cell_off_descriptor hpage hs hc hx hx'

theorem channelDrain_timeline {chan : Nat} (hc : chan ≠ 0) (hlt : chan < maxChannels) (s : State)
    (env : Nat → Env) : Timeline s (channelDrain (kindOf chan) s chan env).2
      (channelDrain (kindOf chan) s chan env).1 := by
  rw [channelDrain]
  cases hd : ringFifoDescriptorRead s chan with
  | none => exact Timeline.quiet (SameCells.refl s)
  | some ring =>
    dsimp only
    split
    · exact Timeline.quiet (SameCells.refl s)
    · have hpath := drain_path (channelRound (kindOf chan) chan ring env) channelAfter drainMaxCmds
        (s, ring.readPtr)
      have hloop := channelLoop_timeline hc hlt hpath
      have hpub := Timeline.quiet (publish_sameCells
        (channelLoop (kindOf chan) chan ring env s).1.1 hlt s.ringSharedPagePfn
        (channelLoop (kindOf chan) chan ring env s).1.2)
      have hall := hloop.append hpub
      rw [List.append_nil] at hall
      rw [(fifoDescriptor_bounds hd).1]
      exact hall

theorem rootFetch_some {env : Env} {s : State} {ring : RootRing} {rp : Nat} {hdr : CmdHeader}
    (h : rootFetch env s ring rp = some hdr) :
    ∃ hdrBuf cmdBuf, hdr = cmdHeaderOf hdrBuf cmdBuf env.beyond := by
  rw [rootFetch] at h
  cases hb : rootRead s ring rp cmdHeaderBytes with
  | none => simp [hb] at h
  | some hdrBuf =>
    simp only [hb] at h
    split at h
    · obtain ⟨cmdBuf, -, rfl⟩ := Option.map_eq_some_iff.mp h
      exact ⟨hdrBuf, cmdBuf, rfl⟩
    · simp at h

theorem rootLoop_timeline {ring : RootRing} {env : Nat → Env} {s s' : State} {served : List Served}
    (h : Path (rootRound ring env) (rootAfter ring) s served s') : Timeline s served s' := by
  induction h with
  | done s => exact Timeline.quiet (SameCells.refl _)
  | @serve n s s' e served hr _ ih =>
    rw [rootRound] at hr
    split at hr
    · simp at hr
    · obtain ⟨hdr, hf, rfl⟩ := Option.map_eq_some_iff.mp hr
      obtain ⟨hdrBuf, cmdBuf, rfl⟩ := rootFetch_some hf
      refine Timeline.serve (SameCells.refl _) (serve_lawful (by decide) _ _ _ (le32_lt hdrBuf 8)) ?_
      exact ih.from_same (rootAfter_sameCells ring _)

theorem rootDrain_timeline (s : State) (env : Nat → Env) :
    Timeline s (rootDrain s env).2 (rootDrain s env).1 := by
  rw [rootDrain]
  split
  · exact Timeline.quiet (SameCells.refl s)
  · exact rootLoop_timeline (drain_path _ _ _ _)

theorem channelDoor_timeline (s : State) (data : Nat) (env : Nat → Env) :
    Timeline s (channelDoor s data env).2 (channelDoor s data env).1 := by
  have hquiet : SameCells s { s with currentChanId := data%2^8 } :=
    ⟨rfl, rfl, rfl, fun _ _ => rfl⟩
  rw [channelDoor]
  dsimp only
  split
  · exact Timeline.quiet (SameCells.refl s)
  · rename_i hlt
    split
    · exact (rootDrain_timeline _ env).from_same hquiet
    · rename_i h0
      have hd := (channelDrain_timeline h0 (by omega) { s with currentChanId := data%2^8 }
        env).from_same hquiet
      rw [kindOf] at hd
      split
      · rename_i h5
        rw [if_pos h5] at hd
        exact hd
      · rename_i h5
        rw [if_neg h5] at hd
        exact hd

end Drains

theorem deviceStep_timeline {s : State} {ev : DeviceEvent} (h : ev.LeavesCells s) :
    Timeline s (deviceStep s ev).2 (deviceStep s ev).1 := by
  cases ev with
  | memory mem => exact Timeline.quiet ⟨rfl, rfl, rfl, h⟩
  | mmio offset value env =>
    simp only [deviceStep, doorbellHandleWrite]
    split
    · exact Timeline.quiet ⟨rfl, rfl, rfl, fun _ _ => rfl⟩
    · exact Timeline.quiet ⟨rfl, rfl, rfl, fun _ _ => rfl⟩
    · have hq : SameCells s { s with writePtr := value, currentChanId := 0 } :=
        ⟨rfl, rfl, rfl, fun _ _ => rfl⟩
      exact (rootDrain_timeline _ env).from_same hq
    · exact Timeline.quiet ⟨rfl, rfl, rfl, fun _ _ => rfl⟩
    · exact Timeline.quiet ⟨rfl, rfl, rfl, fun _ _ => rfl⟩
    · have hq : SameCells s { s with currentChanId := value%2^8 } :=
        ⟨rfl, rfl, rfl, fun _ _ => rfl⟩
      exact (channelDoor_timeline _ value env).from_same hq
    · obtain rfl := h rfl
      exact Timeline.quiet ⟨rfl, rfl, rfl, fun _ _ => rfl⟩
    · exact Timeline.quiet (SameCells.refl s)

/-- A whole run is one timeline. -/
theorem deviceTrace_timeline : ∀ (evs : List DeviceEvent) (s : State),
    AllSteps (fun s ev => (deviceStep s ev).1) (fun s ev => ev.LeavesCells s) s evs →
    ∃ t, Timeline s (deviceTrace s evs) t := by
  intro evs
  induction evs with
  | nil => intro s _; exact ⟨s, Timeline.quiet (SameCells.refl s)⟩
  | cons ev evs ih =>
    intro s h
    obtain ⟨t, ht⟩ := ih _ h.2
    exact ⟨t, (deviceStep_timeline h.1).append ht⟩

section Order
variable {s t : State} {e : Served} {post : List Served}

theorem mem_stampsOn (he : e ∈ post) : e.hdr.stamp ∈ stampsOn e.chan post :=
  List.mem_map_of_mem (List.mem_filter.mpr ⟨he, by simp⟩)

theorem StampsIncrease.lt (h : StampsIncrease s post) (he : e ∈ post) (hc : e.chan < maxChannels) :
    s.stampCell e.chan < e.hdr.stamp :=
  (List.pairwise_cons.mp (h e.chan hc)).1 _ (mem_stampsOn he)

theorem StampsIncrease.same (h : StampsIncrease s post) (hs : SameCells s t) :
    StampsIncrease t post := by
  intro chan hc
  rw [hs.cells chan hc]
  exact h chan hc

theorem stampsOn_cons (chan : Nat) (e : Served) (post : List Served) : stampsOn chan (e::post) =
    if e.chan = chan then e.hdr.stamp::stampsOn chan post else stampsOn chan post := by
  by_cases h : e.chan = chan
  · simp [stampsOn, h]
  · simp [stampsOn, h]

/-- A command that leaves the cells alone is dispatched without touching one. -/
theorem Served.Lawful.dispatched_same (hl : e.Lawful) (hk : e.LeavesCells) :
    SameCells e.before e.dispatched := by
  rw [hl.dispatched_eq]
  exact sameCells_of_regs (dispatchCommand_regs _ _ _ _) fun slot hs x hx hx' =>
    dispatchCommand_mem hk.1 (hk.2 slot hs x hx hx')

/-- Its completion then puts exactly its stamp into its cell. -/
theorem Served.Lawful.completed_cell (hl : e.Lawful) (hpfn : e.dispatched.ringBasePfn ≠ 0)
    (hdma : e.dispatched.DmaOk) (hlt : e.dispatched.stampCell e.chan < e.hdr.stamp) :
    e.completed.stampCell e.chan = e.hdr.stamp := by
  rw [hl.completed_eq, stampCell_self _ _ _ hl.stamp_lt, if_pos ⟨hpfn, hdma.2 _ _⟩,
    if_pos (hdma.1 _ _), nextStamp_of_lt hlt]

theorem Served.Lawful.completed_increase (hl : e.Lawful)
    (hreached : e.completed.stampCell e.chan = e.hdr.stamp)
    (h : StampsIncrease e.dispatched (e::post)) : StampsIncrease e.completed post := by
  intro chan hc
  have hp := h chan hc
  rw [stampsOn_cons] at hp
  split at hp
  · rename_i heq
    subst heq
    rw [hreached]
    exact (List.pairwise_cons.mp hp).2
  · rename_i hne
    have hcell : e.completed.stampCell chan = e.dispatched.stampCell chan := by
      rw [hl.completed_eq]
      exact stampCell_other _ _ (Ne.symm hne)
    rw [hcell]
    exact hp

theorem SameCells.dmaOk (h : SameCells s t) (hs : s.DmaOk) : t.DmaOk := by
  rw [State.DmaOk]
  rw [h.readOk, h.writeOk]
  exact hs

end Order

theorem Timeline.chan_lt {s t : State} {served : List Served} (h : Timeline s served t) :
    ∀ e ∈ served, e.chan < maxChannels := by
  induction h with
  | quiet _ => simp
  | serve _ hl _ ih => exact List.forall_mem_cons.mpr ⟨hl.chan_lt, ih⟩

/-- Along a timeline the cells follow the commands, one command at a time. -/
theorem Timeline.cellsFollow {s t : State} {served : List Served} (h : Timeline s served t) :
    s.ringBasePfn ≠ 0 → s.DmaOk → StampsIncrease s served → (∀ e ∈ served, e.LeavesCells) →
      CellsFollow served := by
  induction h with
  | quiet _ => intro _ _ _ _ pre e post heq; simp at heq
  | @serve s t e post hs hl hrest ih =>
    intro hpfn hdma hinc hleaves
    obtain ⟨hk, hks⟩ := List.forall_mem_cons.mp hleaves
    have hsame := hs.trans (hl.dispatched_same hk)
    have hbefore := hinc.same hs
    have hdisp := hinc.same hsame
    have hchan := (Timeline.serve hs hl hrest).chan_lt
    have hcell := hdisp.lt List.mem_cons_self hl.chan_lt
    have hreached := hl.completed_cell (by rw [hsame.page]; exact hpfn) (hsame.dmaOk hdma) hcell
    have hcomp := hl.completed_increase hreached hdisp
    have hregs : e.completed.regs = e.dispatched.regs := by
      rw [hl.completed_eq]
      exact completeStampSlot_regs _ _ _
    have hpfn' : e.completed.ringBasePfn ≠ 0 := by
      rw [show e.completed.ringBasePfn = e.dispatched.ringBasePfn from
        congrArg Regs.ringBasePfn hregs, hsame.page]
      exact hpfn
    have hrec := ih hpfn' (regs_dmaOk hregs (hsame.dmaOk hdma)) hcomp hks
    intro pre e' post' heq
    cases pre with
    | nil =>
      obtain ⟨rfl, rfl⟩ := List.cons.inj heq
      exact ⟨hreached, fun e'' he => hbefore.lt he (hchan e'' he),
        fun e'' he => hdisp.lt he (hchan e'' he),
        fun e'' he => hcomp.lt he (hchan e'' (List.mem_cons_of_mem _ he))⟩
    | cons p pre =>
      obtain ⟨-, heq⟩ := List.cons.inj heq
      exact hrec pre e' post' heq

/-- In every run of guest writes and BAR0 accesses, on channels 0 to 15 in any
order: when no command completes its own stamp or replies into a stamp cell, each
command leaves exactly its stamp in its cell, and at no point does a cell reach
the stamp of a command still to be dispatched. -/
theorem stamp_cells_follow (s : State) (evs : List DeviceEvent) (hpfn : s.ringBasePfn ≠ 0)
    (hdma : s.DmaOk)
    (hevs : AllSteps (fun s ev => (deviceStep s ev).1) (fun s ev => ev.LeavesCells s) s evs)
    (hinc : StampsIncrease s (deviceTrace s evs))
    (hleaves : ∀ e ∈ deviceTrace s evs, e.LeavesCells) : CellsFollow (deviceTrace s evs) := by
  obtain ⟨t, ht⟩ := deviceTrace_timeline evs s hevs
  exact ht.cellsFollow hpfn hdma hinc hleaves

/- Channel 1 with the commands `bytes` at 0x3000 and the stamp page at 0x4000. -/
def computeState (bytes : List UInt8) : State :=
  { ringBasePfn := 4
    ringSharedPagePfn := 1
    mem := write (write (write (fun _ => 0) 0x1400
      (putLe 4 bytes.length++putLe 4 0++putLe 4 0++putLe 4 1++putLe 4 2)) 0x2000 (putLe 4 3))
      0x3000 bytes }

def eventBytes (opcode stamp : Nat) (payload : List UInt8) : List UInt8 :=
  putLe 2 opcode++putLe 2 0++putLe 4 (12+payload.length)++putLe 4 stamp++payload

/-- The guest rings channel 1. -/
def ringChannel1 : List DeviceEvent := [.mmio 0x1020 1 fun _ => {}]

/-- Two channel events with stamps 5 and 6. -/
theorem stamp_cells_follow_events :
    CellsFollow (deviceTrace (computeState (eventBytes 0x34 5 []++eventBytes 0x34 6 []))
      ringChannel1) := by
  refine stamp_cells_follow _ _ (by decide) ⟨fun _ _ => rfl, fun _ _ => rfl⟩
    ⟨fun h => absurd h (by decide), trivial⟩ (by unfold StampsIncrease; decide) ?_
  have hshape : (deviceTrace (computeState (eventBytes 0x34 5 []++eventBytes 0x34 6 []))
      ringChannel1).map (fun e => (e.chan, e.hdr.opcode)) = [(1, 0x34), (1, 0x34)] := by
    decide
  intro e he
  have hm := List.mem_map_of_mem (f := fun e : Served => (e.chan, e.hdr.opcode)) he
  rw [hshape] at hm
  obtain ⟨hchan, hop⟩ : e.chan = 1 ∧ e.hdr.opcode = 0x34 := by simpa using hm
  have hlogged : computeOp e.hdr.opcode = .logged := by rw [hop]; rfl
  refine ⟨?_, fun slot _ x _ _ => ?_⟩
  · rintro ⟨-, h | h⟩
    · omega
    · exact absurd (hlogged.symm.trans h.2.2) (by decide)
  · simp [replyRange, hchan, Outside]

/-- CmdExecIndirect2 with stamp 5 and empty tables completes 5 itself, the drain
completes it again, and cell 1 holds 6 while the command with stamp 6 is still
to be dispatched. -/
theorem exec_runs_cell_ahead : ¬ ∀ s evs, s.ringBasePfn ≠ 0 → s.DmaOk →
    AllSteps (fun s ev => (deviceStep s ev).1) (fun s ev => ev.LeavesCells s) s evs →
    StampsIncrease s (deviceTrace s evs) → CellsFollow (deviceTrace s evs) := by
  intro h
  have hc := h (computeState (eventBytes 0x37 5 (List.replicate 12 0)++eventBytes 0x34 6 []))
    ringChannel1 (by decide) ⟨fun _ _ => rfl, fun _ _ => rfl⟩
    ⟨fun h => absurd h (by decide), trivial⟩ (by unfold StampsIncrease; decide)
  have hall : ∀ e ∈ deviceTrace (computeState
      (eventBytes 0x37 5 (List.replicate 12 0)++eventBytes 0x34 6 [])) ringChannel1,
      e.completed.stampCell e.chan = e.hdr.stamp := by
    intro e he
    obtain ⟨pre, post, heq⟩ := List.append_of_mem he
    exact (hc pre e post heq).reached
  revert hall
  decide

end Lagfx
