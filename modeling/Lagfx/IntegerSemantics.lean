import Mathlib.Order.Basic

/-! Integer instructions: what LLVM says they compute, and what SPIR-V says. -/
namespace Lagfx

/-- The scalar types that integers are given in SPIR-V; `bool` stands for a width of 1. -/
inductive SpvType where
  | bool
  | int (width : Nat)
deriving DecidableEq, Repr

def SpvType.bits : SpvType → Nat
  | .bool => 1
  | .int width => width

/-- BINOP by its subcode; `none` is undefined behaviour or poison. -/
def llvmBinop {w : Nat} (code : Nat) (x y : BitVec w) : Option (BitVec w) :=
  match code with
  | 0 => some (x+y)
  | 1 => some (x-y)
  | 2 => some (x*y)
  | 3 => if y = 0 then none else some (x/y)
  | 4 => if y = 0 ∨ x = .intMin w ∧ y = -1 then none else some (x.sdiv y)
  | 5 => if y = 0 then none else some (x%y)
  | 6 => if y = 0 ∨ x = .intMin w ∧ y = -1 then none else some (x.srem y)
  | 7 => if w ≤ y.toNat then none else some (x <<< y.toNat)
  | 8 => if w ≤ y.toNat then none else some (x >>> y.toNat)
  | 9 => if w ≤ y.toNat then none else some (x.sshiftRight y.toNat)
  | 10 => some (x &&& y)
  | 11 => some (x ||| y)
  | 12 => some (x ^^^ y)
  | _ => none

/-- TRUNC goes to fewer bits, ZEXT and SEXT to more. -/
def llvmCast {a : Nat} (kind : Nat) (x : BitVec a) (b : Nat) : Option (BitVec b) :=
  match kind with
  | 0 => if b < a then some (x.setWidth b) else none
  | 1 => if a < b then some (x.setWidth b) else none
  | 2 => if a < b then some (x.signExtend b) else none
  | _ => none

/-- A conversion between integer types of Metal: a boolean stands for 0 or 1 and comes from
anything but 0. -/
def metalConvert {a : Nat} (srcSigned : Bool) (x : BitVec a) (b : Nat) : BitVec b :=
  if b = 1 then (if x = 0 then 0 else 1)
  else if srcSigned = true ∧ a ≠ 1 then x.signExtend b
  else x.setWidth b

/-- The logical instructions. -/
def boolBinary (op : Nat) (x y : BitVec 1) : Option (BitVec 1) :=
  match op with
  | 165 => some (x ^^^ y)
  | 166 => some (x ||| y)
  | 167 => some (x &&& y)
  | _ => none

/-- Arithmetic, shifts and bits. -/
def intBinary {w : Nat} (op : Nat) (x y : BitVec w) : Option (BitVec w) :=
  match op with
  | 128 => some (x+y)
  | 130 => some (x-y)
  | 132 => some (x*y)
  | 134 => if y = 0 then none else some (x/y)
  | 135 => if y = 0 ∨ x = .intMin w ∧ y = -1 then none else some (x.sdiv y)
  | 137 => if y = 0 then none else some (x%y)
  | 138 => if y = 0 ∨ x = .intMin w ∧ y = -1 then none else some (x.srem y)
  | 139 => if y = 0 ∨ x = .intMin w ∧ y = -1 then none else some (x.smod y)
  | 194 => if w ≤ y.toNat then none else some (x >>> y.toNat)
  | 195 => if w ≤ y.toNat then none else some (x.sshiftRight y.toNat)
  | 196 => if w ≤ y.toNat then none else some (x <<< y.toNat)
  | 197 => some (x ||| y)
  | 198 => some (x ^^^ y)
  | 199 => some (x &&& y)
  | _ => none

/-- The instructions on two operands of one type; `none` is an opcode that the type does not
admit, or an undefined result. -/
def spvBinary (op : Nat) : (t : SpvType) → BitVec t.bits → BitVec t.bits → Option (BitVec t.bits)
  | .bool, x, y => boolBinary op x y
  | .int _, x, y => intBinary op x y

/-- OpUConvert and OpSConvert, which keep no width. -/
def intConvert {a : Nat} (op : Nat) (x : BitVec a) (b : Nat) : Option (BitVec b) :=
  if a = b then none
  else match op with
    | 113 => some (x.setWidth b)
    | 114 => some (x.signExtend b)
    | _ => none

/-- Only integers are converted. -/
def spvConvert (op : Nat) : (src dst : SpvType) → BitVec src.bits → Option (BitVec dst.bits)
  | .int _, .int b, x => intConvert op x b
  | _, _, _ => none

/- Where the operations meet. -/

section
variable {w v : Nat} {x y : BitVec w}

/-- The remainder of the dividend's sign and that of the divisor's. -/
theorem smod_eq_srem_iff (hy : y ≠ 0#w) :
    x.smod y = x.srem y ↔ x.srem y = 0#w ∨ x.msb = y.msb := by
  rw [BitVec.smod_eq, BitVec.srem_eq]
  cases hx : x.msb with
  | false =>
    cases hys : y.msb with
    | false => simp
    | true =>
      simp only [Bool.false_eq_true, or_false, BitVec.umod_eq]
      by_cases hu : x % -y = 0#w
      · simp only [hu, if_true]
      · have hne : x % -y+y ≠ x % -y := fun h => hy (by simpa using h)
        simp only [hu, if_false, hne]
  | true =>
    cases hys : y.msb with
    | false =>
      simp only [Bool.true_eq_false, or_false, BitVec.umod_eq]
      by_cases hu : -x % y = 0#w
      · simp only [hu, if_true, BitVec.neg_zero]
      · have hne : y - -x % y ≠ -(-x % y) := fun h => hy (by
          rw [BitVec.sub_eq_add_neg] at h
          simpa using h)
        have hnz : ¬-(-x % y) = 0#w := fun h => hu (by simpa using h)
        simp only [hu, if_false, hne, hnz]
    | true => simp

theorem setWidth_eq_signExtend_iff : x.setWidth v = x.signExtend v ↔ v ≤ w ∨ x.msb = false := by
  constructor
  · intro h
    by_contra hno
    rw [not_or, Nat.not_le, Bool.not_eq_false] at hno
    have hbit := congrArg (fun z => z.getLsbD w) h
    simp only [BitVec.getLsbD_setWidth, BitVec.getLsbD_signExtend, hno.1, hno.2] at hbit
    simp at hbit
  · rintro (h | h)
    · exact (BitVec.signExtend_eq_setWidth_of_le x h).symm
    · exact (BitVec.signExtend_eq_setWidth_of_msb_false h).symm

/-- The casts of LLVM are conversions of the one kind or the other. -/
theorem intConvert_llvm {kind : Nat} {r : BitVec v} (h : llvmCast kind x v = some r) :
    intConvert (if kind = 2 then 114 else 113) x v = some r := by
  unfold llvmCast at h
  split at h
  · split_ifs at h with hlt
    rw [← h]
    exact if_neg (Nat.ne_of_gt hlt)
  · split_ifs at h with hlt
    rw [← h]
    exact if_neg (Nat.ne_of_lt hlt)
  · split_ifs at h with hlt
    rw [← h]
    exact if_neg (Nat.ne_of_lt hlt)
  · cases h

end

end Lagfx
