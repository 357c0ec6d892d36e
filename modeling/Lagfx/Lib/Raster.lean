import Mathlib.Tactic.Ring
import Mathlib.Tactic.Linarith

/-! Rows of elements of one size in a sequence of bytes: at a stride, or packed. Nothing here
refers to a device. -/
namespace Lagfx.Raster
variable {α : Type*}

/-- The element at column `x` of row `y` in rows that start `stride` apart. -/
def element (bytes : List α) (stride size x y : Nat) : List α :=
  (bytes.drop (y*stride+x*size)).take size

/-- `n` positions, filled with `z` behind the end. -/
def fill (z : α) (n : Nat) (bytes : List α) : List α :=
  bytes.take n++List.replicate (n-bytes.length) z

@[simp] theorem fill_length (z : α) (n : Nat) (bytes : List α) : (fill z n bytes).length = n := by
  rw [fill, List.length_append, List.length_take, List.length_replicate]
  omega

theorem fill_of_le {z : α} {n : Nat} {bytes : List α} (h : n ≤ bytes.length) :
    fill z n bytes = bytes.take n := by
  rw [fill, Nat.sub_eq_zero_of_le h, List.replicate_zero, List.append_nil]

/-- A packed raster ends behind its last element. -/
theorem element_end_le {w h size x y : Nat} (hx : x < w) (hy : y < h) :
    y*(w*size)+x*size+size ≤ w*h*size := by
  calc y*(w*size)+x*size+size = (y*w+(x+1))*size := by ring
    _ ≤ (y*w+w)*size := Nat.mul_le_mul_right size (by omega)
    _ = w*(y+1)*size := by ring
    _ ≤ w*h*size := Nat.mul_le_mul_right size (Nat.mul_le_mul_left w hy)

/-- What is cut off behind a packed raster is not in an element of it. -/
theorem element_take {bytes : List α} {w h size x y : Nat} (hx : x < w) (hy : y < h) :
    element (bytes.take (w*h*size)) (w*size) size x y = element bytes (w*size) size x y := by
  have hend := @element_end_le w h size x y hx hy
  rw [element, element, List.drop_take, List.take_take, Nat.min_eq_left (by omega)]

theorem element_fill {z : α} {bytes : List α} {w h size x y : Nat} (hx : x < w) (hy : y < h)
    (hfit : w*h*size ≤ bytes.length) :
    element (fill z (w*h*size) bytes) (w*size) size x y = element bytes (w*size) size x y := by
  rw [fill_of_le hfit, element_take hx hy]

/-- Rows at a stride that their elements fill, or a single row, are packed. -/
theorem element_packed {bytes : List α} {w stride size h x y : Nat} (hy : y < h)
    (hrows : w*size = stride ∨ h = 1) :
    element bytes (w*size) size x y = element bytes stride size x y := by
  cases hrows with
  | inl hw => rw [hw]
  | inr hone =>
    have hzero : y = 0 := by omega
    rw [hzero, element, element, Nat.zero_mul, Nat.zero_mul]

/-- As many whole elements a row as its stride has room for, and as many rows as there is
room for. -/
theorem raster_le (stride size total h : Nat) :
    stride/size*(min h (total/stride))*size ≤ total := by
  calc stride/size*(min h (total/stride))*size
      = min h (total/stride)*(stride/size*size) := by ring
    _ ≤ total/stride*stride :=
      Nat.mul_le_mul (Nat.min_le_right h _) (Nat.div_mul_le_self stride size)
    _ ≤ total := Nat.div_mul_le_self total stride

end Lagfx.Raster
