import Mathlib.Data.Nat.Bitwise
import Lagfx.Lib.ByteMemory

/-! A list of bytes as a list of bits, the low bit of a byte first, and the codecs of
fixed-width and variable bit-rate words over it. Nothing here refers to a format. -/
namespace Lagfx.Bits
open ByteMemory

def bitAt (b : List UInt8) (i : Nat) : Bool := (b.getD (i/8) 0).toNat.testBit (i%8)

/-- `bits` lie in `b` from bit `pos` on. -/
def BitsAt (b : List UInt8) (pos : Nat) (bits : List Bool) : Prop :=
  pos+bits.length ≤ 8*b.length ∧ ∀ i, i < bits.length → bits[i]? = some (bitAt b (pos+i))

instance (b : List UInt8) (pos : Nat) (bits : List Bool) : Decidable (BitsAt b pos bits) :=
  inferInstanceAs (Decidable (_ ∧ _))

/-- The bits of a stretch, read off one after the other. -/
theorem bitsAt_range {b : List UInt8} {pos n : Nat} (h : pos+n ≤ 8*b.length) :
    BitsAt b pos ((List.range n).map fun i => bitAt b (pos+i)) := by
  rw [BitsAt, List.length_map, List.length_range]
  refine ⟨h, fun i hi => ?_⟩
  rw [List.getElem?_map, List.getElem?_range hi]
  rfl

theorem bitsAt_append {b : List UInt8} {pos : Nat} {u v : List Bool} :
    BitsAt b pos (u++v) ↔ BitsAt b pos u ∧ BitsAt b (pos+u.length) v := by
  constructor
  · rintro ⟨hlen, h⟩
    rw [List.length_append] at hlen
    refine ⟨⟨by omega, ?_⟩, by omega, ?_⟩
    · intro i hi
      have hu := h i (by rw [List.length_append]; omega)
      rwa [List.getElem?_append_left hi] at hu
    · intro i hi
      have hv := h (u.length+i) (by rw [List.length_append]; omega)
      rw [List.getElem?_append_right (by omega)] at hv
      simpa [Nat.add_assoc] using hv
  · rintro ⟨⟨-, hu⟩, hlen, hv⟩
    refine ⟨by rw [List.length_append]; omega, ?_⟩
    intro i hi
    by_cases hlt : i < u.length
    · rw [List.getElem?_append_left hlt, hu i hlt]
    · rw [List.length_append] at hi
      rw [List.getElem?_append_right (by omega), hv _ (by omega)]
      congr 2
      omega

/-- The little-endian number of some bytes has their bits. -/
theorem leNat_testBit (b : List UInt8) (i : Nat) : (leNat b).testBit i = bitAt b i := by
  induction b generalizing i with
  | nil => simp [leNat, bitAt]
  | cons x b ih =>
    have hx : x.toNat < 2^8 := UInt8.toNat_lt x
    have hsplit : leNat (x::b) = 2^8 * leNat b + x.toNat := by
      simp only [leNat]
      omega
    rw [hsplit, Nat.testBit_two_pow_mul_add _ hx]
    by_cases hi : i < 8
    · rw [if_pos hi, bitAt, Nat.div_eq_of_lt hi, Nat.mod_eq_of_lt hi]
      rfl
    · have hdiv : i/8 = (i-8)/8+1 := by omega
      have hmod : i%8 = (i-8)%8 := by omega
      rw [if_neg hi, ih, bitAt, bitAt, hdiv, hmod, List.getD_cons_succ]

theorem bitAt_window (b : List UInt8) {k n i : Nat} (h : i < 8*n) :
    bitAt (window b k n) i = bitAt b (8*k+i) := by
  have hdiv : (8*k+i)/8 = k+i/8 := by omega
  have hmod : (8*k+i)%8 = i%8 := by omega
  have hlt : i/8 < n := by omega
  rw [bitAt, bitAt, hdiv, hmod]
  simp [window, List.getD_eq_getElem?_getD, hlt]

/-- The low `n` bits of `v`. -/
def putBits (n v : Nat) : List Bool := (List.range n).map v.testBit

@[simp] theorem putBits_length (n v : Nat) : (putBits n v).length = n := by
  simp [putBits]

theorem putBits_getElem? {n v i : Nat} (h : i < n) : (putBits n v)[i]? = some (v.testBit i) := by
  simp [putBits, h]

/-- A field of bits is a quotient of the whole number, cut to its width. -/
theorem BitsAt.field {b : List UInt8} {pos n v : Nat} (h : BitsAt b pos (putBits n v))
    {k m : Nat} (hk : 8*k ≤ pos) (hm : pos+n ≤ 8*(k+m)) :
    (leNat (window b k m) >>> (pos-8*k)) % 2^n = v % 2^n := by
  apply Nat.eq_of_testBit_eq
  intro i
  rw [Nat.testBit_mod_two_pow, Nat.testBit_mod_two_pow]
  by_cases hi : i < n
  · have hb := h.2 i (by simpa using hi)
    rw [putBits_getElem? hi, Option.some.injEq] at hb
    rw [Nat.testBit_shiftRight, leNat_testBit, bitAt_window b (by omega), hb]
    simp only [hi, decide_true, Bool.true_and]
    congr 1
    omega
  · simp [hi]

theorem putBits_add (m n v : Nat) : putBits (m+n) v = putBits m v ++ putBits n (v/2^m) := by
  simp only [putBits, List.range_add, List.map_append, List.map_map]
  congr 1
  apply List.map_congr_left
  intro i _
  rw [Function.comp_apply, Nat.testBit_div_two_pow, Nat.add_comm]

/-- Chunks of `n` bits, the high one set while more follow. -/
def putVbr (n v : Nat) : List Bool :=
  if _h : n < 2 ∨ v < 2^(n-1) then putBits n v
  else putBits n (v%2^(n-1)+2^(n-1)) ++ putVbr n (v/2^(n-1))
termination_by v
decreasing_by
  have h2 : 2^1 ≤ 2^(n-1) := Nat.pow_le_pow_right (by omega) (by omega)
  exact Nat.div_lt_self (by omega) (by omega)

theorem putVbr_last {n v : Nat} (hv : v < 2^(n-1)) : putVbr n v = putBits n v := by
  rw [putVbr, dif_pos (Or.inr hv)]

theorem putVbr_more {n v : Nat} (hn : 2 ≤ n) (hv : 2^(n-1) ≤ v) :
    putVbr n v = putBits n (v%2^(n-1)+2^(n-1)) ++ putVbr n (v/2^(n-1)) := by
  rw [putVbr, dif_neg (by omega)]

/-- The zero bits up to the next multiple of 32. -/
def pad32 (pos : Nat) : List Bool := List.replicate ((32-pos%32)%32) false

def align32 (pos : Nat) : Nat := (pos+31)/32*32

theorem pad32_length (pos : Nat) : pos+(pad32 pos).length = align32 pos := by
  simp only [pad32, align32, List.length_replicate]
  omega

theorem align32_mod (pos : Nat) : align32 pos % 32 = 0 := by
  rw [align32]
  omega

def putBytes (bs : List UInt8) : List Bool := bs.flatMap fun x => putBits 8 x.toNat

@[simp] theorem putBytes_length (bs : List UInt8) : (putBytes bs).length = 8*bs.length := by
  induction bs with
  | nil => rfl
  | cons x bs ih =>
    rw [putBytes, List.flatMap_cons, List.length_append, ← putBytes, ih]
    simp
    omega

/-- Whole bytes on a byte boundary are the bytes of the list. -/
theorem BitsAt.bytes {b bs : List UInt8} {k : Nat} (h : BitsAt b (8*k) (putBytes bs)) :
    window b k bs.length = bs := by
  induction bs generalizing k with
  | nil => simp [window]
  | cons x bs ih =>
    rw [putBytes, List.flatMap_cons, ← putBytes] at h
    obtain ⟨hx, hbs⟩ := bitsAt_append.mp h
    rw [putBits_length, show 8*k+8 = 8*(k+1) by omega] at hbs
    have hin := hx.1
    rw [putBits_length] at hin
    have hval := hx.field (le_refl (8*k)) (show 8*k+8 ≤ 8*(k+1) by omega)
    have hk : k < b.length := by omega
    have hone : window b k 1 = [b[k]] := by
      rw [window, List.drop_eq_getElem_cons hk, List.take_succ_cons, List.take_zero]
    have hb : b[k].toNat < 2^8 := UInt8.toNat_lt b[k]
    rw [hone, Nat.sub_self, Nat.shiftRight_zero, Nat.mod_eq_of_lt (UInt8.toNat_lt x)] at hval
    simp only [leNat, Nat.mul_zero, Nat.add_zero, Nat.mod_eq_of_lt hb] at hval
    rw [List.length_cons, window, List.drop_eq_getElem_cons hk, List.take_succ_cons,
      UInt8.toNat_inj.mp hval]
    exact congrArg _ (ih hbs)

end Lagfx.Bits
