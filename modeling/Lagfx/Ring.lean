import Lagfx.Lib.Fifo
import Lagfx.Dispatch

/-! Per-channel rings: the wire format of a command, the FIFO descriptor, the PFN
array behind it, and the page-chunked reads of `ring_common.c`. -/
namespace Lagfx
open ByteMemory Fifo

def fifoDescBaseOffset : Nat := 0x400
def fifoDescBytes : Nat := 20

/-- A command as the guest produces it. -/
structure WireCmd where
  opcode : Nat
  argCount8b : Nat
  stamp : Nat
  payload : List UInt8
  opcode_lt : opcode < 2^16
  argCount8b_lt : argCount8b < 2^16
  stamp_lt : stamp < 2^32
  fits : cmdHeaderBytes+payload.length ≤ maxCmdBytes

def WireCmd.length (c : WireCmd) : Nat := cmdHeaderBytes+c.payload.length

def WireCmd.headerBytes (c : WireCmd) : List UInt8 :=
  putLe 2 c.opcode++putLe 2 c.argCount8b++putLe 4 c.length++putLe 4 c.stamp

def WireCmd.bytes (c : WireCmd) : List UInt8 := c.headerBytes++c.payload

/-- The header a dispatcher should be handed for it. -/
def WireCmd.header (c : WireCmd) : CmdHeader where
  opcode := c.opcode
  argCount8b := c.argCount8b
  length := c.length
  stamp := c.stamp
  payloadSize := c.length-cmdHeaderBytes
  payload := c.payload

/- The drains parse the header from one read and take the payload from another. -/
def cmdHeaderOf (hdrBuf cmdBuf beyond : List UInt8) : CmdHeader where
  opcode := le16 hdrBuf 0
  argCount8b := le16 hdrBuf 2
  length := le32 hdrBuf 4
  stamp := le32 hdrBuf 8
  payloadSize := (le32 hdrBuf 4-cmdHeaderBytes) % 2^16
  payload := cmdBuf.drop cmdHeaderBytes
  beyond := beyond

/-- The length check of the drains. -/
def lengthOk (ringSize length : Nat) : Prop :=
  cmdHeaderBytes ≤ length ∧ length ≤ maxCmdBytes ∧ length ≤ ringSize

instance (ringSize length : Nat) : Decidable (lengthOk ringSize length) :=
  inferInstanceAs (Decidable (_ ∧ _))

/-- What a drain knows of its ring. -/
structure FifoRing where
  descGpa : Nat
  writePtr : Nat
  readPtr : Nat
  page0Gpa : Nat
deriving DecidableEq, Repr

def State.fifoDescGpa (s : State) (chan : Nat) : Nat :=
  s.ringSharedPagePfn*2^12+fifoDescBaseOffset+(chan-1)*fifoDescBytes

/- The channel field at +0xc is compared and logged, nothing more. -/
def ringFifoDescriptorRead (s : State) (chan : Nat) : Option FifoRing :=
  if s.ringSharedPagePfn = 0 ∨ chan = 0 then none
  else
    match s.readMemory (s.fifoDescGpa chan) fifoDescBytes with
    | none => none
    | some desc =>
      if le32 desc 0x10 = 0 then none
      else some
        { descGpa := s.fifoDescGpa chan
          writePtr := le32 desc 0
          readPtr := le32 desc 4
          page0Gpa := le32 desc 0x10*2^12 }

def ringResolveDataGpa (s : State) (page0Gpa ringSize offset : Nat) : Option Nat :=
  let offMod := if ringSize ≠ 0 then offset%ringSize else offset
  match s.readMemory (page0Gpa+offMod/2^12*4) 4 with
  | none => none
  | some pfnBuf =>
    if le32 pfnBuf 0 = 0 then none
    else some (le32 pfnBuf 0*2^12+offMod%2^12)

/-- Little-endian store of the new position at descriptor+4. -/
def ringPublishReadPtr (s : State) (descGpa readPtr : Nat) : State :=
  s.writeMemory (descGpa+4) (putLe 4 readPtr)

/- The loop of lagfx_ring_read_bytes. A round copies at least one byte, so `len`
   rounds are enough. -/
def ringReadLoop (s : State) (page0Gpa ringSize offset len : Nat) : Nat → Nat → Option (List UInt8)
  | 0, _ => some []
  | rounds+1, done =>
    if len ≤ done then some []
    else
      match ringResolveDataGpa s page0Gpa ringSize (u32 (offset+done)) with
      | none => none
      | some chunkGpa =>
        let chunkLen := min (0x1000-chunkGpa%0x1000) (len-done)
        match s.readMemory chunkGpa chunkLen with
        | none => none
        | some b => (ringReadLoop s page0Gpa ringSize offset len rounds (done+chunkLen)).map (b++·)

def ringReadBytes (s : State) (page0Gpa ringSize offset len : Nat) : Option (List UInt8) :=
  if len = 0 then none else ringReadLoop s page0Gpa ringSize offset len len 0

/- The compute drain has its own copy of that loop, filling `cmdBuf` as it goes. -/
def computeReadBody (s : State) (page0Gpa ringSize rp length : Nat) :
    Nat → List UInt8 → Option (List UInt8)
  | 0, cmdBuf => some cmdBuf
  | rounds+1, cmdBuf =>
    let bytesRead := cmdBuf.length
    if bytesRead < length then
      match ringResolveDataGpa s page0Gpa ringSize (u32 (rp+bytesRead)) with
      | none => none
      | some chunkGpa =>
        let pageLeft := 0x1000-chunkGpa%0x1000
        let chunkLen := if length-bytesRead < pageLeft then length-bytesRead else pageLeft
        match s.readMemory chunkGpa chunkLen with
        | none => none
        | some b => computeReadBody s page0Gpa ringSize rp length rounds (cmdBuf++b)
    else some cmdBuf

theorem readMemory_eq {s : State} (h : ∀ gpa n, s.readOk gpa n = true) (gpa n : Nat) :
    s.readMemory gpa n = some (read s.mem gpa n) := by
  simp [State.readMemory, h]

/-- The two chunk loops agree on every memory, mapped or not. -/
theorem computeReadBody_eq (s : State) (page0Gpa ringSize rp length : Nat) :
    ∀ (rounds : Nat) (cmdBuf : List UInt8),
      computeReadBody s page0Gpa ringSize rp length rounds cmdBuf =
        (ringReadLoop s page0Gpa ringSize rp length rounds cmdBuf.length).map (cmdBuf++·) := by
  intro rounds
  induction rounds with
  | zero => intro cmdBuf; simp [computeReadBody, ringReadLoop]
  | succ rounds ih =>
    intro cmdBuf
    rw [computeReadBody, ringReadLoop]
    by_cases hl : cmdBuf.length < length
    · have hn : ¬ length ≤ cmdBuf.length := by omega
      simp only [hl, hn, if_true, if_false]
      cases ringResolveDataGpa s page0Gpa ringSize (u32 (rp+cmdBuf.length)) with
      | none => rfl
      | some chunkGpa =>
        have hmin : (if length-cmdBuf.length < 0x1000-chunkGpa%0x1000 then length-cmdBuf.length
            else 0x1000-chunkGpa%0x1000) = min (0x1000-chunkGpa%0x1000) (length-cmdBuf.length) := by
          split <;> omega
        simp only [hmin]
        cases hb : s.readMemory chunkGpa (min (0x1000-chunkGpa%0x1000) (length-cmdBuf.length)) with
        | none => rfl
        | some b =>
          have hlen := readMemory_length hb
          simp only [ih, List.length_append, hlen, Option.map_map]
          congr 1
          funext rest
          simp
    · have hn : length ≤ cmdBuf.length := by omega
      simp [hl, hn]

/-- Entry `i` of the PFN array. -/
def ringPfn (m : Nat → UInt8) (page0Gpa i : Nat) : Nat := leNat (read m (page0Gpa+i*4) 4)

/-- The byte a ring shows at counter `c`. -/
def ringView (m : Nat → UInt8) (page0Gpa ringSize c : Nat) : UInt8 :=
  m (ringPfn m page0Gpa (c%ringSize/2^12)*2^12+c%ringSize%2^12)

/-- Every page of the ring is mapped. -/
def RingMapped (m : Nat → UInt8) (page0Gpa ringSize : Nat) : Prop :=
  ∀ i < ringSize/2^12, ringPfn m page0Gpa i ≠ 0

section View
variable {ringSize : Nat} (hpos : 0 < ringSize) (hpages : 2^12 ∣ ringSize)

include hpos hpages in
theorem mod_ring_add {c j : Nat} (h : j < 2^12-c%ringSize%2^12) :
    (c+j)%ringSize = c%ringSize+j := by
  obtain ⟨k, rfl⟩ := hpages
  have hlt := Nat.mod_lt c hpos
  have hd := Nat.div_add_mod (c%(2^12*k)) (2^12)
  have hk : c%(2^12*k)/2^12 < k := Nat.div_lt_of_lt_mul hlt
  have hin : c%(2^12*k)+j < 2^12*k := by
    have := Nat.mul_le_mul_left (2^12) (Nat.succ_le_of_lt hk)
    rw [Nat.mul_succ] at this
    omega
  rw [Nat.add_mod, Nat.mod_eq_of_lt (b := 2^12*k) (a := j) (by omega), Nat.mod_eq_of_lt hin]

include hpos hpages in
/-- Up to the end of its page the ring is contiguous in guest memory. -/
theorem read_ringView (m : Nat → UInt8) (page0Gpa c n : Nat) (h : n ≤ 2^12-c%ringSize%2^12) :
    read (ringView m page0Gpa ringSize) c n =
      read m (ringPfn m page0Gpa (c%ringSize/2^12)*2^12+c%ringSize%2^12) n := by
  apply List.map_congr_left
  intro j hj
  have hlt := List.mem_range.mp hj
  have hm := mod_ring_add hpos hpages (show j < 2^12-c%ringSize%2^12 by omega)
  rw [ringView]
  rw [hm]
  have hdiv : (c%ringSize+j)/2^12 = c%ringSize/2^12 := by omega
  have hmod : (c%ringSize+j)%2^12 = c%ringSize%2^12+j := by omega
  rw [hdiv, hmod, Nat.add_assoc]

include hpos hpages in
theorem ringResolveDataGpa_mapped {s : State} (hdma : ∀ gpa n, s.readOk gpa n = true)
    {page0Gpa : Nat} (hmap : RingMapped s.mem page0Gpa ringSize) (offset : Nat) :
    ringResolveDataGpa s page0Gpa ringSize offset =
      some (ringPfn s.mem page0Gpa (offset%ringSize/2^12)*2^12+offset%ringSize%2^12) := by
  have hlt : offset%ringSize/2^12 < ringSize/2^12 :=
    Nat.div_lt_div_of_lt_of_dvd hpages (Nat.mod_lt offset hpos)
  have hw : le32 (read s.mem (page0Gpa+offset%ringSize/2^12*4) 4) 0 =
      ringPfn s.mem page0Gpa (offset%ringSize/2^12) := by
    rw [le32, ringPfn]
    rw [window_read _ _ _ _ _ (by omega), Nat.add_zero]
  rw [ringResolveDataGpa]
  simp only [ne_eq, hpos.ne', not_false_eq_true, if_true, readMemory_eq hdma, hw]
  rw [if_neg (hmap _ hlt)]

variable (hwrap : ringSize ∣ 2^32)

include hpos hpages hwrap in
theorem ringReadLoop_view {s : State} (hdma : ∀ gpa n, s.readOk gpa n = true) {page0Gpa : Nat}
    (hmap : RingMapped s.mem page0Gpa ringSize) (offset len : Nat) :
    ∀ (rounds done : Nat), done ≤ len → len-done ≤ rounds →
      ringReadLoop s page0Gpa ringSize offset len rounds done =
        some (read (ringView s.mem page0Gpa ringSize) (offset+done) (len-done)) := by
  intro rounds
  induction rounds with
  | zero =>
    intro done _ hr
    have hz : len-done = 0 := by omega
    simp [ringReadLoop, hz]
  | succ rounds ih =>
    intro done hd hr
    rw [ringReadLoop]
    by_cases hl : len ≤ done
    · have hz : len-done = 0 := by omega
      simp [hl, hz]
    · have hu : u32 (offset+done)%ringSize = (offset+done)%ringSize :=
        Nat.mod_mod_of_dvd (offset+done) hwrap
      have hpg : (offset+done)%ringSize%2^12 < 2^12 := Nat.mod_lt _ (by norm_num)
      rw [if_neg hl, ringResolveDataGpa_mapped hpos hpages hdma hmap, hu]
      dsimp only
      rw [readMemory_eq hdma]
      dsimp only
      -- the chunk ends with the page or with the request
      have hoff : (ringPfn s.mem page0Gpa ((offset+done)%ringSize/2^12)*2^12+
          (offset+done)%ringSize%2^12)%0x1000 = (offset+done)%ringSize%2^12 := by omega
      rw [hoff]
      generalize hc : min (0x1000-(offset+done)%ringSize%2^12) (len-done) = chunk
      have hle : chunk ≤ 2^12-(offset+done)%ringSize%2^12 := by omega
      have hpos' : 0 < chunk := by omega
      rw [ih (done+chunk) (by omega) (by omega), ← read_ringView hpos hpages _ _ _ _ hle]
      have hsplit : len-done = chunk+(len-(done+chunk)) := by omega
      rw [hsplit, read_add, Option.map_some, Nat.add_assoc]

include hpos hpages hwrap in
theorem ringReadBytes_view {s : State} (hdma : ∀ gpa n, s.readOk gpa n = true) {page0Gpa : Nat}
    (hmap : RingMapped s.mem page0Gpa ringSize) (offset : Nat) {len : Nat} (hlen : len ≠ 0) :
    ringReadBytes s page0Gpa ringSize offset len =
      some (read (ringView s.mem page0Gpa ringSize) offset len) := by
  have h := ringReadLoop_view hpos hpages hwrap hdma hmap offset len len 0 (by omega) (by omega)
  simpa [ringReadBytes, hlen] using h

end View

theorem WireCmd.headerBytes_length (c : WireCmd) : c.headerBytes.length = cmdHeaderBytes := by
  simp [WireCmd.headerBytes, cmdHeaderBytes]

theorem WireCmd.bytes_length (c : WireCmd) : c.bytes.length = c.length := by
  simp [WireCmd.bytes, WireCmd.headerBytes_length, WireCmd.length]

theorem WireCmd.length_bounds (c : WireCmd) : cmdHeaderBytes ≤ c.length ∧ c.length ≤ maxCmdBytes :=
  ⟨Nat.le_add_right _ _, c.fits⟩

/-- A word written behind `u` is read back at the length of `u`. -/
theorem leNat_field {b u : List UInt8} (rest : List UInt8) {i n v : Nat} (hb : b = u++(putLe n v++rest))
    (hi : u.length = i) (hv : v < 256^n) : leNat (window b i n) = v := by
  subst hb hi
  have hw := window_append_right u (putLe n v++rest) 0 n
  have hz := window_zero_self (putLe n v) rest
  rw [putLe_length] at hz
  rw [Nat.add_zero] at hw
  rw [hw, hz, leNat_putLe_of_lt hv]

/-- Parsing what the producer wrote gives back the command. -/
theorem cmdHeaderOf_bytes (c : WireCmd) (beyond : List UInt8) :
    cmdHeaderOf c.headerBytes c.bytes beyond = { c.header with beyond := beyond } := by
  have hb := c.length_bounds
  simp only [cmdHeaderBytes, maxCmdBytes] at hb
  have h0 : le16 c.headerBytes 0 = c.opcode :=
    leNat_field (u := []) (putLe 2 c.argCount8b++(putLe 4 c.length++putLe 4 c.stamp))
      (by simp [WireCmd.headerBytes]) rfl c.opcode_lt
  have h2 : le16 c.headerBytes 2 = c.argCount8b :=
    leNat_field (u := putLe 2 c.opcode) (putLe 4 c.length++putLe 4 c.stamp)
      (by simp [WireCmd.headerBytes]) (by simp) c.argCount8b_lt
  have h4 : le32 c.headerBytes 4 = c.length :=
    leNat_field (u := putLe 2 c.opcode++putLe 2 c.argCount8b) (putLe 4 c.stamp)
      (by simp [WireCmd.headerBytes]) (by simp) (by norm_num; omega)
  have h8 : le32 c.headerBytes 8 = c.stamp :=
    leNat_field (u := putLe 2 c.opcode++putLe 2 c.argCount8b++putLe 4 c.length) []
      (by simp [WireCmd.headerBytes]) (by simp) c.stamp_lt
  have hpay : c.bytes.drop cmdHeaderBytes = c.payload :=
    List.drop_left' c.headerBytes_length
  have hsize : (c.length-cmdHeaderBytes)%2^16 = c.length-cmdHeaderBytes :=
    Nat.mod_eq_of_lt (by simp only [cmdHeaderBytes]; omega)
  simp only [cmdHeaderOf, WireCmd.header, h0, h2, h4, h8, hpay, hsize]

end Lagfx
