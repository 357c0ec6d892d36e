import Lagfx.RootDrain
import Lagfx.StampNotify

/-! BAR0: the register shadow, the masks and the doors. What the guest reads back over
whole runs, the drains its doors set off included. -/
namespace Lagfx
open ByteMemory Fifo

/- `reg` is the shadow of the first sixteen words of each page of registers. -/
structure Bar where
  proto : State
  reg : Fin 16 → Nat
  pageSize : Nat := 0
  pendingDisplays : Nat := 0

/- Only the offset within the page counts, in words: the secondary bank at 0x1200 has no
   shadow, and unaligned offsets share the word they lie in. -/
def regIndex (offset : Nat) : Option (Fin 16) :=
  if offset < 0x1000 ∨ 0x2000 ≤ offset then none
  else if h : offset % 0x1000 / 4 < 16 then some ⟨offset % 0x1000 / 4, h⟩ else none

def doorbellInit (proto : State) : Bar where
  proto := proto
  reg i := if i = 0 then 1 else 0

namespace Bar
variable (b : Bar)

def shadow (offset value : Nat) : Fin 16 → Nat :=
  match regIndex offset with
  | none => b.reg
  | some i => Function.update b.reg i value

/-- `lagfx_mmio_write`; the MSI-X table below 0x1000 is the shell's. -/
def write (offset value : Nat) (env : Nat → Env) : Bar :=
  if offset < 0x1000 then b
  else
    { b with
      proto := (doorbellHandleWrite b.proto offset value env).1
      reg := b.shadow offset value
      pageSize := if offset = 0x1010 then 0x1000 else b.pageSize }

/-- Commands the write sets off. -/
def writeServed (offset value : Nat) (env : Nat → Env) : List Served :=
  if offset < 0x1000 then [] else (doorbellHandleWrite b.proto offset value env).2

/-- `lagfx_mmio_read`: the value, and what reading it does. -/
def read (offset : Nat) : Nat × Bar :=
  if offset < 0x1000 then (0, b)
  else if offset = 0x122c then (9, b)
  else if offset = 0x1014 then (b.pendingDisplays, { b with pendingDisplays := 0 })
  else if offset = 0x1018 then
    (b.proto.pendingStampsBitmask, { b with proto := { b.proto with pendingStampsBitmask := 0 } })
  else
    match regIndex offset with
    | none => (0, b)
    | some i => (b.reg i, b)

end Bar

/- What the guest does: it writes its own memory, and writes and reads BAR0. -/
inductive BarEvent where
  | memory (mem : Nat → UInt8)
  | write (offset value : Nat) (env : Nat → Env)
  | read (offset : Nat)

def Bar.step (b : Bar) : BarEvent → Bar
  | .memory mem => { b with proto := { b.proto with mem := mem } }
  | .write offset value env => b.write offset value env
  | .read offset => (b.read offset).2

/-- Commands served since the stamp mask was last read. -/
def servedSince : Bar → List Served → List BarEvent → List Served
  | _, acc, [] => acc
  | b, acc, ev :: evs =>
    servedSince (b.step ev) (match ev with
      | .memory _ => acc
      | .write offset value env => acc ++ b.writeServed offset value env
      | .read offset => if offset = 0x1018 then [] else acc) evs

/-- The latest write to a shadowed word, `init` when there is none. -/
def lastWritten (init : Nat) (i : Fin 16) : List BarEvent → Nat
  | [] => init
  | .write offset value _ :: evs =>
    lastWritten (if regIndex offset = some i then value else init) i evs
  | _ :: evs => lastWritten init i evs

/- What a command leaves of the mask and the ring offset. -/

structure Posts (s t : State) (chan : Nat) : Prop where
  offset : t.ringStartOffset = s.ringStartOffset
  mask : t.pendingStampsBitmask = s.pendingStampsBitmask ∨
    t.pendingStampsBitmask = s.pendingStampsBitmask ||| 1 <<< chan

/-- Neither changes. -/
def Unlatched (s t : State) : Prop :=
  t.ringStartOffset = s.ringStartOffset ∧ t.pendingStampsBitmask = s.pendingStampsBitmask

theorem Unlatched.refl (s : State) : Unlatched s s := ⟨rfl, rfl⟩

theorem Unlatched.trans {s t u : State} (h : Unlatched s t) (h' : Unlatched t u) :
    Unlatched s u := ⟨h'.1.trans h.1, h'.2.trans h.2⟩

theorem Unlatched.posts {s t : State} (h : Unlatched s t) (chan : Nat) : Posts s t chan :=
  ⟨h.1, .inl h.2⟩

theorem writeMemory_unlatched (s : State) (gpa : Nat) (bs : List UInt8) :
    Unlatched s (s.writeMemory gpa bs) := by
  unfold State.writeMemory
  split <;> exact .refl s

theorem writeReply_unlatched (s : State) (r : Option (Nat × List UInt8)) :
    Unlatched s (s.writeReply r) := by
  cases r with
  | none => exact .refl s
  | some r => exact writeMemory_unlatched s r.1 r.2

theorem foldl_unlatched {ι : Type*} {f : State → ι → State} (hf : ∀ s i, Unlatched s (f s i))
    (l : List ι) (s : State) : Unlatched s (l.foldl f s) := by
  induction l generalizing s with
  | nil => exact .refl s
  | cons i l ih => exact (hf s i).trans (ih (f s i))

theorem execResources_unlatched (env : Env) (s : State) (hdr : CmdHeader) :
    Unlatched s (execResources env s hdr) := by
  refine foldl_unlatched (fun s i => ?_) _ s
  exact foldl_unlatched (f := execCall env _) (fun s i => ⟨rfl, rfl⟩) _ { s with
    scratchExecHeapSize := _ }

theorem vchanSetupSharedState_unlatched (s : State) (hdr : CmdHeader) :
    Unlatched s (vchanSetupSharedState s hdr) := by
  rw [vchanSetupSharedState]
  dsimp only
  split_ifs
  · exact .refl s
  · exact .refl s
  · exact writeMemory_unlatched { s with world := _ } _ _
  · exact writeMemory_unlatched s _ _

theorem vchanDisplaySubmit_unlatched (env : Env) (s : State) (hdr : CmdHeader) :
    Unlatched s (vchanDisplaySubmit env s hdr) := by
  simp only [vchanDisplaySubmit, submitRenderedFrame]
  cases submitDisplay s.world hdr with
  | none => exact ⟨rfl, rfl⟩
  | some disp =>
    dsimp only
    split_ifs
    · exact ⟨rfl, rfl⟩
    · exact ⟨rfl, rfl⟩
    · exact writeMemory_unlatched { s with world := _ } _ _

theorem completeStampSlot_offset (s : State) (slot stamp : Nat) :
    (completeStampSlot s slot stamp).ringStartOffset = s.ringStartOffset := by
  unfold completeStampSlot advanceStampCell State.writeMemory
  dsimp only
  split_ifs <;> rfl

theorem completeStampSlot_posts (s : State) (slot stamp : Nat) :
    Posts s (completeStampSlot s slot stamp) slot :=
  ⟨completeStampSlot_offset s slot stamp, .inr (completeStampSlot_pending s slot stamp)⟩

theorem Unlatched.then {s t u : State} {chan : Nat} (h : Unlatched s t) (h' : Posts t u chan) :
    Posts s u chan := by
  refine ⟨h'.offset.trans h.1, ?_⟩
  rw [← h.2]
  exact h'.mask

/-- CmdExecIndirect2 may post on its own, for the current channel. -/
theorem computeExecCmdbuf_posts (env : Env) (hdr : CmdHeader) {s : State} {chan : Nat}
    (hcur : s.currentChanId = chan) (hlt : chan < maxChannels) :
    Posts s (computeExecCmdbuf env s hdr) chan := by
  have hres := execResources_unlatched env s hdr
  have hchan : (execResources env s hdr).currentChanId = chan :=
    (congrArg Regs.currentChanId (execResources_regs env s hdr)).trans hcur
  rw [computeExecCmdbuf]
  dsimp only
  split_ifs with hacc hstamp hmax
  · rw [hchan]
    exact hres.then (completeStampSlot_posts _ _ _)
  · rw [hchan] at hmax
    exact absurd hlt hmax
  · exact hres.posts chan
  · exact (Unlatched.refl s).posts chan

theorem dispatchCommand_posts (env : Env) (hdr : CmdHeader) {s : State} {chan : Nat}
    (hcur : s.currentChanId = chan) (hlt : chan < maxChannels) :
    Posts s (dispatchCommand chan env s hdr) chan := by
  have hexec := computeExecCmdbuf_posts env hdr hcur hlt
  have hquiet : ∀ {t : State}, Unlatched s t → Posts s t chan := fun h => h.posts chan
  rw [dispatchCommand]
  split_ifs
  · rw [rootDispatch, getDeviceInfo, getDeviceInfo2]
    cases rootOp hdr.opcode <;>
      first
      | exact hexec
      | exact hquiet (writeReply_unlatched _ _)
      | exact hquiet ⟨rfl, rfl⟩
  · rw [computeDispatch]
    cases computeOp hdr.opcode <;>
      first
      | exact hexec
      | exact hquiet ⟨rfl, rfl⟩
  · rw [displayDispatch]
    cases displayOp hdr.opcode <;>
      first
      | exact hquiet (vchanSetupSharedState_unlatched _ _)
      | exact hquiet (vchanDisplaySubmit_unlatched _ _ _)
      | exact hquiet ⟨rfl, rfl⟩

/-- What serving a command does to the mask. -/
theorem serve_mask (env : Env) (rp : Nat) (hdr : CmdHeader) {s : State} {chan : Nat}
    (hcur : s.currentChanId = chan) (hlt : chan < maxChannels) :
    (serve chan (dispatchCommand chan) env s rp hdr).completed.ringStartOffset =
        s.ringStartOffset ∧
      (serve chan (dispatchCommand chan) env s rp hdr).completed.pendingStampsBitmask =
        s.pendingStampsBitmask ||| 1 <<< chan := by
  have hd := dispatchCommand_posts env hdr hcur hlt
  refine ⟨(completeStampSlot_offset _ _ _).trans hd.offset, ?_⟩
  rw [serve]
  simp only
  rw [completeStampSlot_pending]
  cases hd.mask with
  | inl h => rw [h]
  | inr h => rw [h, Nat.or_assoc, Nat.or_self]

/- What a stretch of a run does to the mask and the ring geometry. -/
structure Drained (s t : State) (served : List Served) : Prop where
  offset : t.ringStartOffset = s.ringStartOffset
  page : t.ringBasePfn = s.ringBasePfn
  base : t.ringBaseGpa = s.ringBaseGpa
  mask : ∀ k, t.pendingStampsBitmask.testBit k =
    (s.pendingStampsBitmask.testBit k || served.any (·.chan == k))

theorem Drained.refl (s : State) : Drained s s [] := ⟨rfl, rfl, rfl, by simp⟩

theorem Drained.trans {s t u : State} {served more : List Served} (h : Drained s t served)
    (h' : Drained t u more) : Drained s u (served ++ more) where
  offset := h'.offset.trans h.offset
  page := h'.page.trans h.page
  base := h'.base.trans h.base
  mask k := by rw [h'.mask, h.mask, List.any_append, Bool.or_assoc]

theorem drained_quiet {s t : State} (hregs : t.regs = s.regs) (hquiet : Unlatched s t) :
    Drained s t [] where
  offset := hquiet.1
  page := congrArg Regs.ringBasePfn hregs
  base := congrArg Regs.ringBaseGpa hregs
  mask k := by rw [hquiet.2, List.any_nil, Bool.or_false]

theorem serve_drained (env : Env) (rp : Nat) (hdr : CmdHeader) {s : State} {chan : Nat}
    (hcur : s.currentChanId = chan) (hlt : chan < maxChannels) :
    Drained s (serve chan (dispatchCommand chan) env s rp hdr).completed
      [serve chan (dispatchCommand chan) env s rp hdr] := by
  obtain ⟨hoff, hmask⟩ := serve_mask env rp hdr hcur hlt
  have hregs : (serve chan (dispatchCommand chan) env s rp hdr).completed.regs = s.regs :=
    (completeStampSlot_regs _ _ _).trans (dispatchCommand_regs chan env s hdr)
  refine ⟨hoff, congrArg Regs.ringBasePfn hregs, congrArg Regs.ringBaseGpa hregs, fun k => ?_⟩
  rw [hmask, Nat.testBit_or, Nat.one_shiftLeft, Nat.testBit_two_pow]
  simp [serve, Bool.beq_eq_decide_eq]

theorem serve_current (env : Env) (rp : Nat) (hdr : CmdHeader) {s : State} {chan : Nat}
    (hcur : s.currentChanId = chan) :
    (serve chan (dispatchCommand chan) env s rp hdr).completed.currentChanId = chan :=
  (congrArg Regs.currentChanId ((completeStampSlot_regs _ _ _).trans
    (dispatchCommand_regs chan env s hdr))).trans hcur

theorem channelLoop_drained {chan : Nat} (hc : chan ≠ 0) (hlt : chan < maxChannels)
    {ring : FifoRing} {env : Nat → Env} {p p' : State × Nat} {served : List Served}
    (h : Path (channelRound (kindOf chan) chan ring env) channelAfter p served p') :
    p.1.currentChanId = chan → Drained p.1 p'.1 served := by
  induction h with
  | done p =>
    intro _
    exact .refl p.1
  | @serve n p p' e served hr _ ih =>
    intro hcur
    obtain ⟨-, hdr, -, rfl⟩ := channelRound_some hr
    rw [kindOf_dispatch hc] at ih ⊢
    have hcount : Drained (serve chan (dispatchCommand chan) (env n) p.1 p.2 hdr).completed
        (channelAfter (serve chan (dispatchCommand chan) (env n) p.1 p.2 hdr)).1 [] :=
      drained_quiet (countSeen_regs _) ⟨rfl, rfl⟩
    have hone := (serve_drained (env n) p.2 hdr hcur hlt).trans hcount
    exact hone.trans (ih (serve_current (env n) p.2 hdr hcur))

theorem channelDrain_drained {chan : Nat} (hc : chan ≠ 0) (hlt : chan < maxChannels) {s : State}
    (hcur : s.currentChanId = chan) (env : Nat → Env) :
    Drained s (channelDrain (kindOf chan) s chan env).1
      (channelDrain (kindOf chan) s chan env).2 := by
  rw [channelDrain]
  cases ringFifoDescriptorRead s chan with
  | none => exact .refl s
  | some ring =>
    dsimp only
    split
    · exact .refl s
    · have hpath := drain_path (channelRound (kindOf chan) chan ring env) channelAfter drainMaxCmds
        (s, ring.readPtr)
      have hloop := channelLoop_drained hc hlt hpath hcur
      have hpub := drained_quiet (writeMemory_regs (channelLoop (kindOf chan) chan ring env s).1.1
        (ring.descGpa+4) (putLe 4 (channelLoop (kindOf chan) chan ring env s).1.2))
        (writeMemory_unlatched _ _ _)
      have hall := hloop.trans hpub
      rw [List.append_nil] at hall
      exact hall

theorem rootLoop_drained {ring : RootRing} {env : Nat → Env} {s s' : State} {served : List Served}
    (h : Path (rootRound ring env) (rootAfter ring) s served s') :
    s.currentChanId = 0 → Drained s s' served := by
  induction h with
  | done s =>
    intro _
    exact .refl s
  | @serve n s s' e served hr _ ih =>
    intro hcur
    rw [rootRound] at hr
    split at hr
    · cases hr
    · obtain ⟨hdr, -, rfl⟩ := Option.map_eq_some_iff.mp hr
      have hone := serve_drained (env n) (s.readPtr%ring.size) hdr hcur (by decide)
      have hafter : Drained
          (serve 0 (dispatchCommand 0) (env n) s (s.readPtr%ring.size) hdr).completed
          (rootAfter ring (serve 0 (dispatchCommand 0) (env n) s (s.readPtr%ring.size) hdr)) [] :=
        ⟨rfl, rfl, rfl, by simp [rootAfter, countSeen]⟩
      exact (hone.trans hafter).trans (ih (serve_current (env n) (s.readPtr%ring.size) hdr hcur))

theorem rootDrain_drained {s : State} (hcur : s.currentChanId = 0) (env : Nat → Env) :
    Drained s (rootDrain s env).1 (rootDrain s env).2 := by
  rw [rootDrain]
  split
  · exact .refl s
  · exact rootLoop_drained (drain_path _ _ _ _) hcur

theorem channelDoor_drained (s : State) (data : Nat) (env : Nat → Env) :
    Drained s (channelDoor s data env).1 (channelDoor s data env).2 := by
  have hset : Drained s { s with currentChanId := data%2^8 } [] :=
    ⟨rfl, rfl, rfl, by simp⟩
  rw [channelDoor]
  dsimp only
  split
  · exact .refl s
  · rename_i hlt
    split
    · rename_i h0
      exact hset.trans (rootDrain_drained h0 env)
    · rename_i h0
      have hd := hset.trans (channelDrain_drained h0 (Nat.not_le.mp hlt) rfl env)
      rw [kindOf] at hd
      split
      · rename_i h5
        rw [if_pos h5] at hd
        exact hd
      · rename_i h5
        rw [if_neg h5] at hd
        exact hd

/- Whole runs. -/

/-- `lagfx_protocol_new` on a shell with this memory. -/
def protocolNew (dev : Device) (readOk writeOk : Nat → Nat → Bool) (mem : Nat → UInt8) : State :=
  { dev := dev, readOk := readOk, writeOk := writeOk, mem := mem }

def State.Geometry (s : State) : Prop := s.ringBaseGpa = s.ringBasePfn*2^12+s.ringStartOffset

/-- `acc`: the commands served since the stamp mask was read. -/
structure Bar.Inv (b : Bar) (acc : List Served) : Prop where
  geometry : b.proto.Geometry
  displays : b.pendingDisplays = 0
  mask : ∀ k, b.proto.pendingStampsBitmask.testBit k = acc.any (·.chan == k)

theorem Drained.geometry {s t : State} {served : List Served} (h : Drained s t served)
    (hg : s.Geometry) : t.Geometry := by
  rw [State.Geometry, h.base, h.page, h.offset]
  exact hg

/-- One write, its drains included. -/
theorem doorbellHandleWrite_latch {s : State} (hg : s.Geometry) (offset value : Nat)
    (env : Nat → Env) :
    (doorbellHandleWrite s offset value env).1.Geometry ∧
      ∀ k, (doorbellHandleWrite s offset value env).1.pendingStampsBitmask.testBit k =
        (s.pendingStampsBitmask.testBit k ||
          (doorbellHandleWrite s offset value env).2.any (·.chan == k)) := by
  unfold doorbellHandleWrite
  split
  · exact ⟨hg, by simp⟩
  · exact ⟨hg, by simp⟩
  · have hset : Drained s { s with writePtr := value, currentChanId := 0 } [] :=
      ⟨rfl, rfl, rfl, by simp⟩
    have hd := hset.trans (rootDrain_drained rfl env)
    exact ⟨hd.geometry hg, hd.mask⟩
  · exact ⟨rfl, by simp⟩
  · exact ⟨hg, by simp⟩
  · have hset : Drained s { s with currentChanId := value%2^8 } [] := ⟨rfl, rfl, rfl, by simp⟩
    have hd := hset.trans (channelDoor_drained _ value env)
    exact ⟨hd.geometry hg, hd.mask⟩
  · exact ⟨rfl, by simp⟩
  · exact ⟨hg, by simp⟩

theorem Bar.Inv.write {b : Bar} {acc : List Served} (hi : b.Inv acc) (offset value : Nat)
    (env : Nat → Env) :
    (b.write offset value env).Inv (acc ++ b.writeServed offset value env) := by
  rw [Bar.write, Bar.writeServed]
  split
  · rw [List.append_nil]
    exact hi
  · obtain ⟨hgeom, hmask⟩ := doorbellHandleWrite_latch hi.geometry offset value env
    refine ⟨hgeom, hi.displays, fun k => ?_⟩
    rw [List.any_append, ← hi.mask]
    exact hmask k

theorem Bar.Inv.read {b : Bar} {acc : List Served} (hi : b.Inv acc) (offset : Nat) :
    (b.read offset).2.Inv (if offset = 0x1018 then [] else acc) := by
  by_cases hstamps : offset = 0x1018
  · subst hstamps
    exact ⟨hi.geometry, hi.displays, by simp [Bar.read]⟩
  · rw [if_neg hstamps]
    simp only [Bar.read]
    split_ifs
    · exact hi
    · exact hi
    · exact ⟨hi.geometry, rfl, hi.mask⟩
    · split
      · exact hi
      · exact hi

theorem Bar.Inv.run {b : Bar} {acc : List Served} (hi : b.Inv acc) (evs : List BarEvent) :
    (evs.foldl Bar.step b).Inv (servedSince b acc evs) := by
  induction evs generalizing b acc with
  | nil => exact hi
  | cons ev evs ih =>
    rw [List.foldl_cons]
    cases ev with
    | memory mem =>
      have hmem : (b.step (.memory mem)).Inv acc := ⟨hi.geometry, hi.displays, hi.mask⟩
      exact ih hmem
    | write offset value env => exact ih (hi.write offset value env)
    | read offset => exact ih (hi.read offset)

theorem step_reg (b : Bar) (ev : BarEvent) (i : Fin 16) :
    (b.step ev).reg i =
      match ev with
      | .write offset value _ => if regIndex offset = some i then value else b.reg i
      | _ => b.reg i := by
  cases ev with
  | memory mem => rfl
  | write offset value env =>
    simp only [Bar.step, Bar.write]
    split
    · rename_i hlow
      have hnone : regIndex offset = none := by simp [regIndex, hlow]
      simp [hnone]
    · simp only [Bar.shadow]
      cases hr : regIndex offset with
      | none => simp
      | some j =>
        by_cases hij : j = i
        · simp [hij]
        · simp [hij, Function.update_of_ne (Ne.symm hij)]
  | read offset =>
    simp only [Bar.step, Bar.read]
    split_ifs
    · rfl
    · rfl
    · rfl
    · rfl
    · cases regIndex offset <;> rfl

theorem run_reg (evs : List BarEvent) (b : Bar) (i : Fin 16) :
    (evs.foldl Bar.step b).reg i = lastWritten (b.reg i) i evs := by
  induction evs generalizing b with
  | nil => rfl
  | cons ev evs ih =>
    rw [List.foldl_cons, ih, step_reg]
    cases ev <;> rfl

/-- What the guest reads from BAR0 after any run of its writes, reads and changes of memory,
whatever the drains it set off did: the stamp mask shows exactly the channels on which a
command was served since it was last read, and a shadowed register the last value written to
any offset of its word. The ring base stays what the page and the offset say. -/
theorem bar_reads (dev : Device) (readOk writeOk : Nat → Nat → Bool) (mem : Nat → UInt8)
    (evs : List BarEvent) (offset : Nat) :
    let b₀ := doorbellInit (protocolNew dev readOk writeOk mem)
    let b := evs.foldl Bar.step b₀
    b.proto.ringBaseGpa = b.proto.ringBasePfn*2^12+b.proto.ringStartOffset ∧
      (∀ k, b.proto.pendingStampsBitmask.testBit k = true ↔
        ∃ e ∈ servedSince b₀ [] evs, e.chan = k) ∧
      (b.read offset).1 =
        if offset = 0x122c then 9
        else if offset = 0x1014 then 0
        else if offset = 0x1018 then b.proto.pendingStampsBitmask
        else
          match regIndex offset with
          | none => 0
          | some i => lastWritten (if i = 0 then 1 else 0) i evs := by
  intro b₀ b
  have h0 : b₀.Inv [] := {
    geometry := by simp [State.Geometry, b₀, doorbellInit, protocolNew]
    displays := rfl
    mask := by simp [b₀, doorbellInit, protocolNew] }
  have hi : b.Inv (servedSince b₀ [] evs) := h0.run evs
  refine ⟨hi.geometry, fun k => ?_, ?_⟩
  · rw [hi.mask, List.any_eq_true]
    simp only [beq_iff_eq]
  · have hreg : ∀ i, b.reg i = lastWritten (if i = 0 then 1 else 0) i evs :=
      fun i => run_reg evs b₀ i
    simp only [Bar.read]
    split_ifs with hlow hcap hdisp hstamps hcap hdisp hstamps
    · omega
    · omega
    · omega
    · simp [regIndex, hlow]
    · rfl
    · exact hi.displays
    · rfl
    · cases regIndex offset with
      | none => rfl
      | some i => exact hreg i

/- The secondary bank has no shadow, and 0x1031 shows the word at 0x1030. -/
example : regIndex 0x1200 = none ∧ regIndex 0x1031 = some 12 := by decide

end Lagfx
