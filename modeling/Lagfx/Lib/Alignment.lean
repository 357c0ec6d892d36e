import Mathlib.Algebra.Order.Ring.Nat
import Mathlib.Tactic.Ring

/-! Members placed one behind the other at multiples of their alignments. -/
namespace Lagfx.Alignment

/-- The least multiple of `a` from `x` on. -/
def alignUp (x a : Nat) : Nat := (x+a-1)/a*a

theorem dvd_alignUp (x a : Nat) : a ∣ alignUp x a := Nat.dvd_mul_left a _

theorem le_alignUp {a : Nat} (ha : 0 < a) (x : Nat) : x ≤ alignUp x a := by
  have hdiv := Nat.div_add_mod (x+a-1) a
  have hmod := Nat.mod_lt (x+a-1) ha
  rw [Nat.mul_comm] at hdiv
  rw [alignUp]
  omega

theorem alignUp_le {x a q : Nat} (ha : 0 < a) (h : x ≤ q) (hq : a ∣ q) : alignUp x a ≤ q := by
  obtain ⟨k, rfl⟩ := hq
  rw [alignUp, Nat.mul_comm a k]
  refine Nat.mul_le_mul_right a (Nat.lt_succ_iff.1 ((Nat.div_lt_iff_lt_mul ha).2 ?_))
  calc
    x+a-1 < a*k+a := by omega
    _ = (k+1)*a := by ring

theorem alignUp_of_dvd {x a : Nat} (ha : 0 < a) (h : a ∣ x) : alignUp x a = x :=
  Nat.le_antisymm (alignUp_le ha (Nat.le_refl x) h) (le_alignUp ha x)

theorem alignUp_mono {x y a : Nat} (ha : 0 < a) (h : x ≤ y) : alignUp x a ≤ alignUp y a :=
  alignUp_le ha (h.trans (le_alignUp ha y)) (dvd_alignUp y a)

/-- A greater alignment takes the place of a smaller one. -/
theorem alignUp_alignUp {a b : Nat} (ha : 0 < a) (hb : 0 < b) (hab : a ∣ b) (x : Nat) :
    alignUp (alignUp x a) b = alignUp x b := by
  have hdvd : a ∣ alignUp x b := hab.trans (dvd_alignUp x b)
  exact Nat.le_antisymm
    (alignUp_le hb (alignUp_le ha (le_alignUp hb x) hdvd) (dvd_alignUp x b))
    (alignUp_mono hb (le_alignUp ha x))

theorem add_alignUp {p a : Nat} (ha : 0 < a) (hp : a ∣ p) (x : Nat) :
    p+alignUp x a = alignUp (p+x) a := by
  refine Nat.le_antisymm ?_ (alignUp_le ha (Nat.add_le_add_left (le_alignUp ha x) p)
    (Nat.dvd_add hp (dvd_alignUp x a)))
  have hle : p ≤ alignUp (p+x) a := (Nat.le_add_right p x).trans (le_alignUp ha _)
  have hrest : alignUp x a ≤ alignUp (p+x) a-p := by
    refine alignUp_le ha ?_ (Nat.dvd_sub (dvd_alignUp _ a) hp)
    have hx := le_alignUp ha (p+x)
    omega
  omega

/- Sequences of members. -/

/-- A size and an alignment. -/
structure Layout where
  size : Nat
  align : Nat
deriving DecidableEq, Repr

def place (o : Nat) (e : Layout) : Nat := alignUp o e.align

/-- Where the members begin, and where the last one ends. -/
def offsets : Nat → List Layout → List Nat
  | _, [] => []
  | o, e::es => place o e::offsets (place o e+e.size) es

def ending : Nat → List Layout → Nat
  | o, [] => o
  | o, e::es => ending (place o e+e.size) es

/-- The alignment of the whole. -/
def maxAlign (es : List Layout) : Nat := es.foldl (fun a e => max a e.align) 1

/-- A size that is a multiple of the alignment, and this a power of two up to `2^k`. -/
structure Layout.Whole (k : Nat) (e : Layout) : Prop where
  power : ∃ j ≤ k, e.align = 2^j
  whole : e.align ∣ e.size

theorem Layout.Whole.pos {k : Nat} {e : Layout} (h : e.Whole k) : 0 < e.align := by
  obtain ⟨j, -, hj⟩ := h.power
  rw [hj]
  exact Nat.two_pow_pos j

theorem maxAlign_power {k : Nat} {es : List Layout} (h : ∀ e ∈ es, e.Whole k) :
    (∃ j ≤ k, maxAlign es = 2^j) ∧ ∀ e ∈ es, e.align ∣ maxAlign es := by
  have hfold : ∀ (es : List Layout) (m : Nat), (∀ e ∈ es, e.Whole k) → m ≤ k →
      (∃ j ≤ k, es.foldl (fun a e => max a e.align) (2^m) = 2^j ∧ m ≤ j) ∧
        ∀ e ∈ es, e.align ∣ es.foldl (fun a e => max a e.align) (2^m) := by
    intro es
    induction es with
    | nil => exact fun m _ hm => ⟨⟨m, hm, rfl, Nat.le_refl m⟩, by simp⟩
    | cons e es ih =>
      intro m hes hm
      obtain ⟨i, hi, hpow⟩ := (hes e List.mem_cons_self).power
      have hmax : max (2^m) e.align = 2^(max m i) := by
        rw [hpow]
        obtain hle | hle := Nat.le_total m i
        · rw [max_eq_right hle, max_eq_right (Nat.pow_le_pow_right (by decide) hle)]
        · rw [max_eq_left hle, max_eq_left (Nat.pow_le_pow_right (by decide) hle)]
      obtain ⟨⟨j, hj, hfold, hle⟩, hall⟩ := ih (max m i)
        (fun e' he' => hes e' (List.mem_cons_of_mem e he')) (max_le hm hi)
      rw [List.foldl_cons, hmax]
      refine ⟨⟨j, hj, hfold, (le_max_left m i).trans hle⟩, ?_⟩
      intro e' he'
      obtain rfl | he' := List.mem_cons.1 he'
      · rw [hfold, hpow]
        exact Nat.pow_dvd_pow 2 ((le_max_right m i).trans hle)
      · exact hall e' he'
  obtain ⟨⟨j, hj, heq, -⟩, hall⟩ := hfold es 0 h (Nat.zero_le k)
  exact ⟨⟨j, hj, heq⟩, hall⟩

end Lagfx.Alignment
