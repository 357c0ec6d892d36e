import Lagfx.ChannelFifo

/-! The root channel drain, the two doorbells and the register writes around them.
The root ring is contiguous; its read position is kept modulo the ring size. -/
namespace Lagfx
open ByteMemory Fifo

/-- The geometry a root drain works with. -/
structure RootRing where
  base : Nat
  size : Nat
  writePtr : Nat

/- `len` bytes from offset `rp`, the tail from the ring start when they wrap. -/
def rootRead (s : State) (ring : RootRing) (rp len : Nat) : Option (List UInt8) :=
  let headLen := ring.size-rp
  if len ≤ headLen then s.readMemory (ring.base+rp) len
  else
    match s.readMemory (ring.base+rp) headLen with
    | none => none
    | some head => (s.readMemory ring.base (len-headLen)).map (head++·)

def rootFetch (env : Env) (s : State) (ring : RootRing) (rp : Nat) : Option CmdHeader :=
  match rootRead s ring rp cmdHeaderBytes with
  | none => none
  | some hdrBuf =>
    if lengthOk ring.size (le32 hdrBuf 4) then
      (rootRead s ring rp (le32 hdrBuf 4)).map fun cmdBuf => cmdHeaderOf hdrBuf cmdBuf env.beyond
    else none

def rootRound (ring : RootRing) (env : Nat → Env) (n : Nat) (s : State) : Option Served :=
  if s.readPtr = ring.writePtr then none
  else (rootFetch (env n) s ring (s.readPtr%ring.size)).map
    (serve 0 rootDispatch (env n) s (s.readPtr%ring.size))

/-- `(rp + length) % ring_size`, the sum on 32 bits. -/
def rootAfter (ring : RootRing) (e : Served) : State :=
  { countSeen e.completed with readPtr := u32 (e.rp+e.hdr.length)%ring.size }

def State.rootRing (s : State) : RootRing :=
  { base := s.ringBaseGpa, size := s.ringSize, writePtr := s.writePtr }

def rootDrain (s : State) (env : Nat → Env) : State × List Served :=
  if s.ringArmed = false ∨ s.ringSize = 0 ∨ s.ringBaseGpa = 0 then (s, [])
  else drain (rootRound s.rootRing env) (rootAfter s.rootRing) drainMaxCmds s

def primaryRingDoor (s : State) (data : Nat) (env : Nat → Env) : State × List Served :=
  rootDrain { s with writePtr := data, currentChanId := 0 } env

def channelDoor (s : State) (data : Nat) (env : Nat → Env) : State × List Served :=
  let chan := data%2^8
  if maxChannels ≤ chan then (s, [])
  else
    let s := { s with currentChanId := chan }
    if chan = 0 then rootDrain s env
    else if chan < 5 then computeDrain s chan env
    else displayDrain s chan env

/- BAR0 writes. The register shadow is read back only and is left out; an offset
   without protocol state changes nothing else. -/
def doorbellHandleWrite (s : State) (offset value : Nat) (env : Nat → Env) : State × List Served :=
  match offset with
  | 0x1000 => ({ s with ringArmed := value ≠ 0 }, [])
  | 0x1004 => ({ s with ringSize := if value ≠ 0 then value else 0x10000 }, [])
  | 0x1008 => primaryRingDoor s value env
  | 0x1010 =>
    ({ s with ringStartOffset := value, ringBaseGpa := s.ringBasePfn*2^12+value }, [])
  | 0x101c => ({ s with ringSharedPagePfn := value }, [])
  | 0x1020 => channelDoor { s with currentChanId := value%2^8 } value env
  | 0x1030 =>
    ({ s with
      ringBasePfn := value
      ringBaseGpa := value*2^12+s.ringStartOffset
      ringSize := if s.ringSize = 0 then 0x10000 else s.ringSize }, [])
  | _ => (s, [])

theorem primary_door_eq (s : State) (value : Nat) (env : Nat → Env) :
    doorbellHandleWrite s 0x1008 value env =
      ((rootDrain { s with writePtr := value, currentChanId := 0 } env).1,
        (rootDrain { s with writePtr := value, currentChanId := 0 } env).2) := rfl

/-- The byte the root ring shows at counter `c`. -/
def rootView (m : Nat → UInt8) (base size c : Nat) : UInt8 := m (base+c%size)

theorem read_rootView {m : Nat → UInt8} {base size c n : Nat} (h : n ≤ size-c%size)
    (hpos : 0 < size) : read (rootView m base size) c n = read m (base+c%size) n := by
  apply List.map_congr_left
  intro j hj
  have hlt := List.mem_range.mp hj
  have hc := Nat.mod_lt c hpos
  have hm : (c+j)%size = c%size+j := by
    rw [Nat.add_mod, Nat.mod_eq_of_lt (a := j) (by omega), Nat.mod_eq_of_lt (by omega)]
  rw [rootView, hm, Nat.add_assoc]

/-- One wrap at most, so two reads at most. -/
theorem rootRead_view {s : State} (hdma : s.DmaOk) {ring : RootRing} (hpos : 0 < ring.size)
    (c : Nat) {n : Nat} (hn : n ≤ ring.size) :
    rootRead s ring (c%ring.size) n = some (read (rootView s.mem ring.base ring.size) c n) := by
  have hc := Nat.mod_lt c hpos
  unfold rootRead
  dsimp only
  by_cases hfit : n ≤ ring.size-c%ring.size
  · rw [if_pos hfit, readMemory_eq hdma.1, read_rootView hfit hpos]
  · rw [if_neg hfit, readMemory_eq hdma.1, readMemory_eq hdma.1]
    -- the wrapped part starts a new turn of the ring
    have hturn : (c+(ring.size-c%ring.size))%ring.size = 0 := by
      have hd := Nat.div_add_mod c ring.size
      have hsum : c+(ring.size-c%ring.size) = ring.size*(c/ring.size+1) := by
        rw [Nat.mul_succ]
        omega
      rw [hsum, Nat.mul_mod_right]
    have htail := @read_rootView s.mem ring.base ring.size (c+(ring.size-c%ring.size))
      (n-(ring.size-c%ring.size)) (by rw [hturn]; omega) hpos
    rw [hturn, Nat.add_zero] at htail
    have hsplit : n = (ring.size-c%ring.size)+(n-(ring.size-c%ring.size)) := by omega
    conv_rhs => rw [hsplit, read_add, read_rootView le_rfl hpos, htail]
    rfl

end Lagfx
