import Mathlib.Tactic.Linarith

/-! Byte-addressed memory as a function, contiguous reads and writes, and the
little-endian codec of fixed-width words. Nothing here refers to a device. -/
namespace Lagfx.ByteMemory

/-- The `n` bytes stored from address `a` on. -/
def read (m : Nat → UInt8) (a n : Nat) : List UInt8 :=
  (List.range n).map fun i => m (a+i)

def write (m : Nat → UInt8) (a : Nat) (bs : List UInt8) : Nat → UInt8 :=
  fun x => if a ≤ x ∧ x < a+bs.length then bs.getD (x-a) 0 else m x

@[simp] theorem read_length (m : Nat → UInt8) (a n : Nat) : (read m a n).length = n := by
  simp [read]

@[simp] theorem read_zero (m : Nat → UInt8) (a : Nat) : read m a 0 = [] := rfl

theorem read_getElem (m : Nat → UInt8) (a n i : Nat) (h : i < (read m a n).length) :
    (read m a n)[i] = m (a+i) := by
  simp [read]

theorem read_add (m : Nat → UInt8) (a k n : Nat) :
    read m a (k+n) = read m a k ++ read m (a+k) n := by
  simp [read, List.range_add, Nat.add_assoc]

/-- Two memories that agree on a range read the same there. -/
theorem read_congr {m m' : Nat → UInt8} {a n : Nat}
    (h : ∀ x, a ≤ x → x < a+n → m x = m' x) : read m a n = read m' a n := by
  apply List.map_congr_left
  intro i hi
  have hlt := List.mem_range.mp hi
  exact h (a+i) (by omega) (by omega)

theorem write_outside (m : Nat → UInt8) (a : Nat) (bs : List UInt8) (x : Nat)
    (h : x < a ∨ a+bs.length ≤ x) : write m a bs x = m x := by
  have hn : ¬ (a ≤ x ∧ x < a+bs.length) := by omega
  simp [write, hn]

theorem read_write_same (m : Nat → UInt8) (a : Nat) (bs : List UInt8) :
    read (write m a bs) a bs.length = bs := by
  apply List.ext_getElem (by simp)
  intro i hi hi'
  rw [read_getElem]
  have hr : a ≤ a+i ∧ a+i < a+bs.length := by omega
  simp only [write, hr, and_self, ite_true]
  rw [Nat.add_sub_cancel_left]
  simp [List.getD_eq_getElem?_getD, hi']

/- Little-endian words. A word of width `n` is `n` bytes, least significant
   first; reading past the end of a list reads zero bytes. -/
def leNat : List UInt8 → Nat
  | [] => 0
  | b :: bs => b.toNat + 256 * leNat bs

def putLe : Nat → Nat → List UInt8
  | 0, _ => []
  | n+1, v => UInt8.ofNat (v % 256) :: putLe n (v / 256)

/-- The `n` bytes of `b` from offset `i`. -/
def window (b : List UInt8) (i n : Nat) : List UInt8 := (b.drop i).take n

@[simp] theorem putLe_length (n v : Nat) : (putLe n v).length = n := by
  induction n generalizing v with
  | zero => rfl
  | succ n ih => simp [putLe, ih]

theorem leNat_lt (bs : List UInt8) : leNat bs < 256 ^ bs.length := by
  induction bs with
  | nil => simp [leNat]
  | cons b bs ih =>
    have hb : b.toNat < 256 := UInt8.toNat_lt b
    simp only [leNat, List.length_cons, pow_succ]
    omega

theorem leNat_putLe (n v : Nat) : leNat (putLe n v) = v % 256 ^ n := by
  induction n generalizing v with
  | zero => simp [putLe, leNat, Nat.mod_one]
  | succ n ih =>
    simp only [putLe, leNat, ih, pow_succ]
    rw [Nat.mul_comm (256 ^ n) 256, Nat.mod_mul]
    simp

theorem leNat_putLe_of_lt {n v : Nat} (h : v < 256 ^ n) : leNat (putLe n v) = v := by
  rw [leNat_putLe, Nat.mod_eq_of_lt h]

theorem putLe_leNat (bs : List UInt8) : putLe bs.length (leNat bs) = bs := by
  induction bs with
  | nil => rfl
  | cons b bs ih =>
    have hb : b.toNat < 256 := UInt8.toNat_lt b
    have hlow : (b.toNat+256*leNat bs)%256 = b.toNat := by omega
    have hhigh : (b.toNat+256*leNat bs)/256 = leNat bs := by omega
    rw [List.length_cons, leNat, putLe, hlow, hhigh, ih, UInt8.ofNat_toNat]

theorem window_putLe (n v : Nat) : window (putLe n v) 0 n = putLe n v :=
  List.take_of_length_le (by simp)

theorem window_length (b : List UInt8) (i n : Nat) (h : i+n ≤ b.length) :
    (window b i n).length = n := by
  simp [window]; omega

theorem window_append_right (u v : List UInt8) (i n : Nat) :
    window (u ++ v) (u.length+i) n = window v i n := by
  unfold window
  rw [List.drop_append, List.drop_eq_nil_of_le (by omega)]
  simp

theorem window_zero_self (u v : List UInt8) : window (u ++ v) 0 u.length = u := by
  simp [window]

theorem window_read (m : Nat → UInt8) (a n i k : Nat) (h : i+k ≤ n) :
    window (read m a n) i k = read m (a+i) k := by
  apply List.ext_getElem (by simp [window]; omega)
  intro j hj hj'
  simp [window, read, Nat.add_assoc]

/-- `part` lies in `b` from offset `off` on. -/
def PartAt (b : List UInt8) (off : Nat) (part : List UInt8) : Prop :=
  off+part.length ≤ b.length ∧ window b off part.length = part

instance (b : List UInt8) (off : Nat) (part : List UInt8) : Decidable (PartAt b off part) :=
  inferInstanceAs (Decidable (_ ∧ _))

theorem partAt_self (b : List UInt8) : PartAt b 0 b := by
  simp [PartAt, window]

theorem PartAt.window {b part : List UInt8} {off i n : Nat} (h : PartAt b off part)
    (hi : i+n ≤ part.length) : PartAt b (off+i) (window part i n) := by
  have hl := window_length part i n hi
  refine ⟨by rw [hl]; have := h.1; omega, ?_⟩
  have hp : part = (b.drop off).take part.length := h.2.symm
  rw [hl]
  conv_rhs => rw [hp]
  simp only [ByteMemory.window, List.drop_take, List.take_take, List.drop_drop]
  rw [min_eq_left (by omega)]

theorem PartAt.drop {b part : List UInt8} {off n : Nat} (h : PartAt b off part)
    (hn : n ≤ part.length) : PartAt b (off+n) (part.drop n) := by
  have hw := h.window (show n+(part.length-n) ≤ part.length by omega)
  have hd : ByteMemory.window part n (part.length-n) = part.drop n :=
    List.take_of_length_le (by simp)
  rwa [hd] at hw

theorem partAt_append {b u v : List UInt8} {off : Nat} :
    PartAt b off (u++v) ↔ PartAt b off u ∧ PartAt b (off+u.length) v := by
  constructor
  · intro h
    refine ⟨?_, ?_⟩
    · have hw := h.window (show 0+u.length ≤ (u++v).length by simp)
      rwa [window_zero_self] at hw
    · have hd := h.drop (show u.length ≤ (u++v).length by simp)
      rwa [List.drop_left] at hd
  · intro ⟨hu, hv⟩
    refine ⟨by have := hv.1; simp; omega, ?_⟩
    rw [ByteMemory.window, List.length_append, List.take_add]
    have hu2 := hu.2
    have hv2 := hv.2
    simp only [ByteMemory.window] at hu2 hv2
    rw [hu2, List.drop_drop, hv2]

theorem partAt_putLe {b : List UInt8} {off n v : Nat} (hoff : off+n ≤ b.length)
    (hv : v < 256^n) : PartAt b off (putLe n v) ↔ leNat (window b off n) = v := by
  rw [PartAt, putLe_length]
  constructor
  · intro h
    rw [h.2, leNat_putLe_of_lt hv]
  · intro h
    have hbytes := putLe_leNat (window b off n)
    rw [window_length b off n hoff, h] at hbytes
    exact ⟨hoff, hbytes.symm⟩

end Lagfx.ByteMemory
