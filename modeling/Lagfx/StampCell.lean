import Lagfx.Lib.Runs
import Lagfx.State

/-! Stamp cells: `lagfx_advance_stamp_cell` and the completion that calls it. A
cell is one little-endian word of the page at `ring_base_pfn`, one per slot. -/
namespace Lagfx
open ByteMemory Runs

/-- `(ring_base_pfn << 12) + slot * 4`, not `ring_base_gpa`. -/
def State.stampCellAddr (s : State) (slot : Nat) : Nat := s.ringBasePfn*2^12+slot*4

/-- The word the guest reads in the cell of `slot`. -/
def State.stampCell (s : State) (slot : Nat) : Nat := leNat (read s.mem (s.stampCellAddr slot) 4)

/-- `max(target, cur+1)` on 32 bits with a floor of 1. -/
def nextStamp (cur target : Nat) : Nat :=
  let next := if target > cur then target else u32 (cur+1)
  if next < 1 then 1 else next

/- A failed read leaves `cur` at its initial 0 and the write goes ahead. -/
def advanceStampCell (s : State) (slot target : Nat) : State :=
  if s.ringBasePfn = 0 then s
  else
    let cellAddr := s.stampCellAddr slot
    let cur := match s.readMemory cellAddr 4 with
      | some b => le32 b 0
      | none => 0
    s.writeMemory cellAddr (putLe 4 (nextStamp cur target))

/- The interrupt raised at the end changes nothing on this side. -/
def completeStampSlot (s : State) (slot stamp : Nat) : State :=
  let s := { s with
    lastCompletedStamp := stamp
    totalCmdsCompleted := u64 (s.totalCmdsCompleted+1) }
  let s := advanceStampCell s slot stamp
  { s with pendingStampsBitmask := s.pendingStampsBitmask ||| 1 <<< slot }

def completeStamp (s : State) (stamp : Nat) : State := completeStampSlot s 0 stamp

theorem nextStamp_pos (cur target : Nat) : 0 < nextStamp cur target := by
  unfold nextStamp
  dsimp only
  split_ifs <;> omega

theorem nextStamp_lt {cur target : Nat} (ht : target < 2^32) : nextStamp cur target < 2^32 := by
  unfold nextStamp u32
  dsimp only
  split_ifs <;> omega

theorem nextStamp_of_lt {cur target : Nat} (h : cur < target) : nextStamp cur target = target := by
  unfold nextStamp
  dsimp only
  split_ifs <;> omega

/-- Below the last word value the advance is strict; from it, it wraps to 1. -/
theorem nextStamp_advances {cur target : Nat} (hc : cur < 2^32) (ht : target < 2^32) :
    cur < nextStamp cur target ∨ (cur = 2^32-1 ∧ nextStamp cur target = 1) := by
  unfold nextStamp u32
  dsimp only
  split_ifs <;> omega

theorem nextStamp_zero (target : Nat) : nextStamp 0 target = max target 1 := by
  unfold nextStamp u32
  dsimp only
  split_ifs <;> omega

@[simp] theorem advanceStampCell_ringBasePfn (s : State) (slot target : Nat) :
    (advanceStampCell s slot target).ringBasePfn = s.ringBasePfn := by
  unfold advanceStampCell State.writeMemory
  dsimp only
  split_ifs <;> rfl

theorem completeStampSlot_mem (s : State) (slot stamp : Nat) :
    (completeStampSlot s slot stamp).mem = (advanceStampCell s slot stamp).mem := by
  unfold completeStampSlot advanceStampCell State.writeMemory State.readMemory
    State.stampCellAddr
  dsimp only
  split_ifs <;> rfl

@[simp] theorem completeStampSlot_ringBasePfn (s : State) (slot stamp : Nat) :
    (completeStampSlot s slot stamp).ringBasePfn = s.ringBasePfn := by
  simp [completeStampSlot]

theorem advanceStampCell_mem (s : State) (slot target : Nat) :
    (advanceStampCell s slot target).mem =
      if s.ringBasePfn ≠ 0 ∧ s.writeOk (s.stampCellAddr slot) 4 = true then
        write s.mem (s.stampCellAddr slot) (putLe 4 (nextStamp
          (if s.readOk (s.stampCellAddr slot) 4 then s.stampCell slot else 0) target))
      else s.mem := by
  have hw := window_read s.mem (s.stampCellAddr slot) 4 0 4 le_rfl
  rw [advanceStampCell, State.writeMemory, State.readMemory, State.stampCell]
  by_cases hp : s.ringBasePfn = 0
  · simp [hp]
  · by_cases hr : s.readOk (s.stampCellAddr slot) 4
    · simp [hp, hr, le32, hw, apply_ite State.mem]
    · simp [hp, hr, apply_ite State.mem]

/-- Only the four bytes of the cell can change. -/
theorem completeStampSlot_frame (s : State) (slot stamp x : Nat)
    (h : x < s.stampCellAddr slot ∨ s.stampCellAddr slot+4 ≤ x) :
    (completeStampSlot s slot stamp).mem x = s.mem x := by
  rw [completeStampSlot_mem, advanceStampCell_mem]
  split
  · exact write_outside _ _ _ _ (by simpa using h)
  · rfl

theorem stampCell_lt (s : State) (slot : Nat) : s.stampCell slot < 2^32 := by
  have h := leNat_lt (read s.mem (s.stampCellAddr slot) 4)
  simpa [State.stampCell] using h

theorem stampCell_congr {s t : State} (hp : t.ringBasePfn = s.ringBasePfn) (slot : Nat)
    (h : ∀ x, s.stampCellAddr slot ≤ x → x < s.stampCellAddr slot+4 → t.mem x = s.mem x) :
    t.stampCell slot = s.stampCell slot := by
  have ha : t.stampCellAddr slot = s.stampCellAddr slot := by simp [State.stampCellAddr, hp]
  simp only [State.stampCell]
  rw [ha, read_congr h]

/-- A completion of one slot leaves the cells of the others alone. -/
theorem stampCell_other (s : State) {slot other : Nat} (stamp : Nat) (h : other ≠ slot) :
    (completeStampSlot s slot stamp).stampCell other = s.stampCell other := by
  apply stampCell_congr (by simp)
  intro x hx hx'
  apply completeStampSlot_frame
  simp only [State.stampCellAddr] at hx hx' ⊢
  omega

/-- The value a completion leaves in its own cell. -/
theorem stampCell_self (s : State) (slot stamp : Nat) (ht : stamp < 2^32) :
    (completeStampSlot s slot stamp).stampCell slot =
      if s.ringBasePfn ≠ 0 ∧ s.writeOk (s.stampCellAddr slot) 4 = true then
        nextStamp (if s.readOk (s.stampCellAddr slot) 4 then s.stampCell slot else 0) stamp
      else s.stampCell slot := by
  have ha : (completeStampSlot s slot stamp).stampCellAddr slot = s.stampCellAddr slot := by
    simp [State.stampCellAddr]
  conv_lhs => unfold State.stampCell
  rw [ha, completeStampSlot_mem, advanceStampCell_mem]
  split
  · have hr := read_write_same s.mem (s.stampCellAddr slot) (putLe 4 (nextStamp
      (if s.readOk (s.stampCellAddr slot) 4 then s.stampCell slot else 0) stamp))
    rw [putLe_length] at hr
    rw [hr, leNat_putLe_of_lt]
    exact lt_of_lt_of_eq (nextStamp_lt ht) (by norm_num)
  · rfl

/- One call with the outcome of its two DMA transfers. -/
structure Completion where
  slot : Nat
  stamp : Nat
  readOk : Bool
  writeOk : Bool
  slot_lt : slot < maxChannels
  stamp_lt : stamp < 2^32

def completeWith (s : State) (c : Completion) : State :=
  completeStampSlot { s with
    readOk := fun _ _ => c.readOk
    writeOk := fun _ _ => c.writeOk } c.slot c.stamp

/-- The write of `c` reaches the cell. -/
def Completion.Writes (c : Completion) (s : State) : Prop :=
  s.ringBasePfn ≠ 0 ∧ c.writeOk = true

/- What the guest may rely on across one completion. -/
structure CellAdvances (s : State) (c : Completion) : Prop where
  increases : c.Writes s → s.stampCell c.slot < (completeWith s c).stampCell c.slot ∨
    (s.stampCell c.slot = 2^32-1 ∧ (completeWith s c).stampCell c.slot = 1)
  nonzero : c.Writes s → (completeWith s c).stampCell c.slot ≠ 0
  others : ∀ slot, slot ≠ c.slot → (completeWith s c).stampCell slot = s.stampCell slot
  frame : ∀ x, x < s.stampCellAddr c.slot ∨ s.stampCellAddr c.slot+4 ≤ x →
    (completeWith s c).mem x = s.mem x
  silent : s.ringBasePfn = 0 → (completeWith s c).mem = s.mem

/-- When the current value cannot be read, the target alone has to exceed it. -/
def Completion.Readable (s : State) (c : Completion) : Prop :=
  c.Writes s → c.readOk = false →
    s.stampCell c.slot < max c.stamp 1 ∨ (s.stampCell c.slot = 2^32-1 ∧ c.stamp ≤ 1)

theorem completeWith_cell (s : State) (c : Completion) (h : c.Writes s) :
    (completeWith s c).stampCell c.slot =
      nextStamp (if c.readOk then s.stampCell c.slot else 0) c.stamp := by
  have hs := stampCell_self { s with
    readOk := fun _ _ => c.readOk
    writeOk := fun _ _ => c.writeOk } c.slot c.stamp c.stamp_lt
  exact hs.trans (if_pos h)

theorem completeWith_silent (s : State) (c : Completion) (h : s.ringBasePfn = 0) :
    (completeWith s c).mem = s.mem := by
  rw [completeWith]
  rw [completeStampSlot_mem, advanceStampCell_mem]
  simp [h]

/-- One completion advances its cell exactly when it is readable. -/
theorem cellAdvances_iff (s : State) (c : Completion) : CellAdvances s c ↔ c.Readable s := by
  have hlt := stampCell_lt s c.slot
  constructor
  · intro h hw hr
    have hi := h.increases hw
    rw [completeWith_cell s c hw, hr] at hi
    simp only [Bool.false_eq_true, if_false, nextStamp_zero] at hi
    omega
  · intro h
    refine ⟨fun hw => ?_, fun hw => ?_, fun slot hne => ?_, fun x hx => ?_, completeWith_silent s c⟩
    · rw [completeWith_cell s c hw]
      cases hr : c.readOk with
      | true => simpa using nextStamp_advances hlt c.stamp_lt
      | false =>
        have hb := h hw hr
        simp only [Bool.false_eq_true, if_false, nextStamp_zero]
        omega
    · rw [completeWith_cell s c hw]
      exact (nextStamp_pos _ _).ne'
    · exact stampCell_other _ c.stamp hne
    · exact completeStampSlot_frame _ c.slot c.stamp x hx

/-- Over a whole run, in any order of slots and stamps and any pattern of DMA
failures: every completion advances exactly when every completion is readable. -/
theorem completions_advance_iff (s : State) (cs : List Completion) :
    AllSteps completeWith CellAdvances s cs ↔
      AllSteps completeWith (fun s c => c.Readable s) s cs :=
  allSteps_congr completeWith cellAdvances_iff cs s

/-- Cell 0 holds 5, its read fails, and a late completion of stamp 3 lands: the
guest sees 5 go back to 3. -/
theorem completion_regresses : ¬ AllSteps completeWith CellAdvances
    { ringBasePfn := 1, mem := write (fun _ => 0) 4096 (putLe 4 5) }
    [{ slot := 0, stamp := 3, readOk := false, writeOk := true,
       slot_lt := by decide, stamp_lt := by decide }] := by
  rintro ⟨h, -⟩
  have hi := h.increases (by simp [Completion.Writes])
  revert hi
  decide

end Lagfx
