import Lagfx.BlockDispatch

/-! The value numbers of the blocks of a body: what a block defines, and that the map of
defining blocks answers with it. -/
namespace Lagfx.Spirv
open Bits

/-- Consecutive numbers: each instruction stands at the number the ones before it leave. -/
def Counts (types : List XlateType) : Nat → List (Nat × XlateInst) → Nat → Prop
  | n, [], m => n = m
  | n, p :: ps, m =>
    p.1 = n ∧ Counts types (if instProducesValue types p.2 then n+1 else n) ps m

section Counts
variable {types : List XlateType} {n m : Nat} {ps : List (Nat × XlateInst)}

theorem counts_append {qs : List (Nat × XlateInst)} :
    Counts types n (ps ++ qs) m ↔ ∃ k, Counts types n ps k ∧ Counts types k qs m := by
  induction ps generalizing n with
  | nil => simp [Counts]
  | cons p ps ih =>
    simp only [List.cons_append, Counts, ih]
    constructor
    · rintro ⟨hp, k, hps, hqs⟩
      exact ⟨k, ⟨hp, hps⟩, hqs⟩
    · rintro ⟨k, ⟨hp, hps⟩, hqs⟩
      exact ⟨hp, k, hps, hqs⟩

theorem Counts.le (h : Counts types n ps m) : n ≤ m := by
  induction ps generalizing n with
  | nil => exact h.le
  | cons p ps ih =>
    have := ih h.2
    split at this <;> omega

theorem Counts.ge_of_mem (h : Counts types n ps m) {p : Nat × XlateInst} (hp : p ∈ ps) :
    n ≤ p.1 := by
  induction ps generalizing n with
  | nil => cases hp
  | cons q ps ih =>
    rcases List.mem_cons.mp hp with rfl | hp
    · exact h.1.ge
    · have := ih h.2 hp
      split at this <;> omega

theorem Counts.lt_of_mem (h : Counts types n ps m) {p : Nat × XlateInst} (hp : p ∈ ps)
    (hv : instProducesValue types p.2 = true) : p.1 < m := by
  induction ps generalizing n with
  | nil => cases hp
  | cons q ps ih =>
    rcases List.mem_cons.mp hp with rfl | hp
    · have := h.2.le
      rw [if_pos hv] at this
      have := h.1
      omega
    · exact ih h.2 hp

/-- A number belongs to one instruction that produces a value. -/
theorem Counts.eq_of_mem (h : Counts types n ps m) {p q : Nat × XlateInst} (hp : p ∈ ps)
    (hq : q ∈ ps) (hvp : instProducesValue types p.2 = true)
    (hvq : instProducesValue types q.2 = true) (hpq : p.1 = q.1) : p = q := by
  induction ps generalizing n with
  | nil => cases hp
  | cons a ps ih =>
    have hlater : ∀ b ∈ ps, instProducesValue types a.2 = true → a.1 < b.1 := by
      intro b hb ha
      have := h.2.ge_of_mem hb
      rw [if_pos ha] at this
      have := h.1
      omega
    rcases List.mem_cons.mp hp with rfl | hp'
    · rcases List.mem_cons.mp hq with rfl | hq'
      · rfl
      · exact absurd (hlater q hq' hvp) (by omega)
    · rcases List.mem_cons.mp hq with rfl | hq'
      · exact absurd (hlater p hp' hvq) (by omega)
      · exact ih h.2 hp' hq'

/-- Every number is taken. -/
theorem Counts.exists_of_lt (h : Counts types n ps m) {v : Nat} (hn : n ≤ v) (hm : v < m) :
    ∃ p ∈ ps, p.1 = v ∧ instProducesValue types p.2 = true := by
  induction ps generalizing n with
  | nil =>
    cases h
    omega
  | cons q ps ih =>
    by_cases hv : instProducesValue types q.2 = true ∧ v = n
    · exact ⟨q, List.mem_cons_self, by rw [h.1, hv.2], hv.1⟩
    · have hstart : (if instProducesValue types q.2 then n+1 else n) ≤ v := by
        split
        · next hq => exact Nat.lt_of_le_of_ne hn fun hnv => hv ⟨hq, hnv.symm⟩
        · exact hn
      obtain ⟨p, hp, hpv⟩ := ih h.2 hstart
      exact ⟨p, List.mem_cons_of_mem q hp, hpv⟩

theorem counts_valueWalk (types : List XlateType) (n : Nat) (is : List XlateInst)
    (h : n+is.length < 2^32) :
    ∃ m, m ≤ n+is.length ∧ Counts types n (valueWalk types n is) m := by
  induction is generalizing n with
  | nil => exact ⟨n, Nat.le_refl n, rfl⟩
  | cons i is ih =>
    rw [List.length_cons] at h ⊢
    rw [valueWalk]
    have hu : u32 (n+1) = n+1 := Nat.mod_eq_of_lt (by omega)
    cases hv : instProducesValue types i with
    | false =>
      obtain ⟨m, hm, hc⟩ := ih n (by omega)
      exact ⟨m, by omega, rfl, by simpa [hv] using hc⟩
    | true =>
      obtain ⟨m, hm, hc⟩ := ih (n+1) (by omega)
      exact ⟨m, by omega, rfl, by simpa [hv, hu] using hc⟩

end Counts

/-- The instructions of a block, in order. -/
def AirBb.all (b : AirBb) : List (Nat × XlateInst) := b.body ++ [b.term]

theorem partitionFrom_all {acc ps : List (Nat × XlateInst)} {bbs : List AirBb}
    (h : partitionFrom acc ps = some bbs) : acc ++ ps = bbs.flatMap AirBb.all := by
  induction ps generalizing acc bbs with
  | nil =>
    simp only [partitionFrom] at h
    split at h
    · next ha =>
      cases h
      simp [ha]
    · cases h
  | cons p ps ih =>
    simp only [partitionFrom] at h
    split at h
    · obtain ⟨rest, hrest, rfl⟩ := Option.map_eq_some_iff.mp h
      have := ih hrest
      rw [List.nil_append] at this
      rw [List.flatMap_cons, ← this]
      simp [AirBb.all]
    · have := ih h
      rw [← this]
      simp

theorem partitionFrom_term {acc ps : List (Nat × XlateInst)} {bbs : List AirBb}
    (h : partitionFrom acc ps = some bbs) : ∀ b ∈ bbs, instIsTerminator b.term.2.code = true := by
  induction ps generalizing acc bbs with
  | nil =>
    simp only [partitionFrom] at h
    split at h
    · cases h
      simp
    · cases h
  | cons p ps ih =>
    simp only [partitionFrom] at h
    split at h
    · next ht =>
      obtain ⟨rest, hrest, rfl⟩ := Option.map_eq_some_iff.mp h
      intro b hb
      rcases List.mem_cons.mp hb with rfl | hb
      · exact ht
      · exact ih hrest b hb
    · exact ih h

/-- The blocks from number `n` on, up to `m`; a terminator takes no number. -/
def BlockCounts (types : List XlateType) : Nat → List AirBb → Nat → Prop
  | n, [], m => n = m
  | n, b :: bs, m =>
    Counts types n b.body b.term.1 ∧ instProducesValue types b.term.2 = false ∧
      BlockCounts types b.term.1 bs m

section BlockCounts
variable {types : List XlateType} {n m : Nat} {bs : List AirBb}

theorem blockCounts_of_counts (h : Counts types n (bs.flatMap AirBb.all) m)
    (ht : ∀ b ∈ bs, instProducesValue types b.term.2 = false) : BlockCounts types n bs m := by
  induction bs generalizing n with
  | nil => exact h
  | cons b bs ih =>
    rw [List.flatMap_cons, AirBb.all] at h
    obtain ⟨k, hb, hrest⟩ := counts_append.mp h
    obtain ⟨j, hbody, hterm, hj⟩ := counts_append.mp hb
    have hv := ht b List.mem_cons_self
    rw [hv] at hj
    cases hj
    refine ⟨by rw [hterm]; exact hbody, hv, ?_⟩
    rw [hterm]
    exact ih hrest fun c hc => ht c (List.mem_cons_of_mem b hc)

theorem BlockCounts.le (h : BlockCounts types n bs m) : n ≤ m := by
  induction bs generalizing n with
  | nil => exact h.le
  | cons b bs ih => exact h.1.le.trans (ih h.2.2)

/-- A block of the list: where it starts, and what comes after it. -/
theorem BlockCounts.get {k : Nat} {b : AirBb} (h : BlockCounts types n bs m)
    (hb : bs[k]? = some b) :
    ∃ j, n ≤ j ∧ BlockCounts types n (bs.take k) j ∧ Counts types j b.body b.term.1 ∧
      BlockCounts types b.term.1 (bs.drop (k+1)) m := by
  induction bs generalizing n k with
  | nil => simp at hb
  | cons a bs ih =>
    cases k with
    | zero =>
      obtain rfl : a = b := by simpa using hb
      exact ⟨n, Nat.le_refl n, rfl, h.1, h.2.2⟩
    | succ k =>
      obtain ⟨j, hj, htake, hbody, hdrop⟩ := ih h.2.2 (by simpa using hb)
      exact ⟨j, h.1.le.trans hj, ⟨h.1, h.2.1, htake⟩, hbody, hdrop⟩

end BlockCounts

namespace Dispatch
variable (d : Dispatch) (bbs : List AirBb)

/-- Block `k` defines value `v`. -/
def Owns (k v : Nat) : Prop :=
  ∃ b p, bbs[k]? = some b ∧ p ∈ b.body ∧ p.1 = v ∧ d.produces p = true

variable {d bbs}

section
variable {n m k l v : Nat} (hbbs : BlockCounts d.types n bbs m)
include hbbs

theorem Owns.ge (h : d.Owns bbs k v) : n ≤ v := by
  obtain ⟨b, p, hb, hp, rfl, -⟩ := h
  obtain ⟨j, hj, -, hbody, -⟩ := hbbs.get hb
  exact hj.trans (hbody.ge_of_mem hp)

theorem Owns.lt (h : d.Owns bbs k v) : v < m := by
  obtain ⟨b, p, hb, hp, rfl, hv⟩ := h
  obtain ⟨j, -, -, hbody, hdrop⟩ := hbbs.get hb
  exact (hbody.lt_of_mem hp hv).trans_le hdrop.le

theorem owns_of_lt (hn : n ≤ v) (hm : v < m) : ∃ k, d.Owns bbs k v := by
  induction bs_eq : bbs generalizing n bbs with
  | nil =>
    subst bs_eq
    cases hbbs
    omega
  | cons b bs ih =>
    subst bs_eq
    by_cases hv : v < b.term.1
    · obtain ⟨p, hp, hpv, hprod⟩ := hbbs.1.exists_of_lt hn hv
      exact ⟨0, b, p, rfl, hp, hpv, hprod⟩
    · obtain ⟨k, b', p, hb', hp⟩ := ih hbbs.2.2 (Nat.not_lt.mp hv) rfl
      exact ⟨k+1, b', p, hb', hp⟩

/-- Blocks define values in the order of their numbers. -/
theorem Owns.lt_of_lt {w : Nat} (h : d.Owns bbs k v) (h' : d.Owns bbs l w) (hkl : k < l) :
    v < w := by
  obtain ⟨b, p, hb, hp, rfl, hv⟩ := h
  obtain ⟨j, -, -, hbody, hdrop⟩ := hbbs.get hb
  refine (hbody.lt_of_mem hp hv).trans_le ?_
  obtain ⟨b', q, hb', hq, hqw, hvq⟩ := h'
  have hown : d.Owns (bbs.drop (k+1)) (l-(k+1)) w := by
    refine ⟨b', q, ?_, hq, hqw, hvq⟩
    rw [List.getElem?_drop, show k+1+(l-(k+1)) = l by omega]
    exact hb'
  exact hown.ge hdrop

theorem Owns.eq (h : d.Owns bbs k v) (h' : d.Owns bbs l v) : k = l := by
  rcases Nat.lt_trichotomy k l with hkl | hkl | hkl
  · exact absurd (h.lt_of_lt hbbs h' hkl) (Nat.lt_irrefl v)
  · exact hkl
  · exact absurd (h'.lt_of_lt hbbs h hkl) (Nat.lt_irrefl v)

end

section
variable {n m : Nat} (hbbs : BlockCounts d.types n bbs m) (hfew : bbs.length ≤ 65535)
variable (halloca : ∀ k b, bbs[k]? = some b → k ≠ 0 → ∀ p ∈ b.body, p.2.code ≠ .alloca)
include hfew halloca

/-- What a block answers for a value of its own. -/
theorem defBbIn_eq {k v l : Nat} {b : AirBb} (hb : bbs[k]? = some b)
    (h : d.defBbIn k b v = some l) : l = k ∧ d.Owns bbs k v := by
  obtain ⟨p, hp, hl⟩ := Option.bind_eq_some_iff.mp h
  have hmem := List.mem_of_find?_eq_some hp
  have hpv := List.find?_some hp
  rw [Bool.and_eq_true, beq_iff_eq] at hpv
  have hlt : k < bbs.length := (List.getElem?_eq_some_iff.mp hb).1
  refine ⟨?_, b, p, hb, hmem, hpv.1, hpv.2⟩
  split at hl
  · next hc =>
    by_contra hne
    have h0 : k ≠ 0 := by
      rintro rfl
      exact hne (Option.some.inj hl).symm
    exact halloca k b hb h0 p hmem hc
  · split at hl
    · cases hl
    · cases hl
      exact Nat.mod_eq_of_lt (by omega)

theorem defBbIn_of_mem {k : Nat} {b : AirBb} (hb : bbs[k]? = some b) {p : Nat × XlateInst}
    (hp : p ∈ b.body) (hv : d.produces p = true) : d.defBbIn k b p.1 = some k := by
  have hlt : k < bbs.length := (List.getElem?_eq_some_iff.mp hb).1
  have hsome : (b.body.find? fun q => q.1 == p.1 && d.produces q).isSome = true := by
    rw [List.find?_isSome]
    exact ⟨p, hp, by simp [hv]⟩
  obtain ⟨q, hq⟩ := Option.isSome_iff_exists.mp hsome
  have hmod : k % 2^16 = k := Nat.mod_eq_of_lt (by omega)
  rw [defBbIn, hq, Option.bind_some, hmod, if_neg (show ¬ k = 0xFFFF by omega)]
  split
  · next hc =>
    by_cases h0 : k = 0
    · rw [h0]
    · exact absurd hc (halloca k b hb h0 q (List.mem_of_find?_eq_some hq))
  · rfl

include hbbs

/-- The map of defining blocks. -/
theorem defBb_eq_some {k v : Nat} : d.defBb bbs v = some k ↔ d.Owns bbs k v := by
  constructor
  · intro h
    obtain ⟨x, hx, hk⟩ := List.exists_of_findSome?_eq_some h
    have hb := List.mem_zipIdx_iff_getElem?.mp hx
    obtain ⟨rfl, how⟩ := defBbIn_eq hfew halloca hb hk
    exact how
  · intro how
    obtain ⟨b, p, hb, hp, rfl, hv⟩ := id how
    have hsome : (d.defBb bbs p.1).isSome = true := by
      rw [defBb, List.findSome?_isSome_iff]
      refine ⟨(b, k), List.mem_zipIdx_iff_getElem?.mpr hb, ?_⟩
      rw [defBbIn_of_mem hfew halloca hb hp hv]
      rfl
    obtain ⟨l, hl⟩ := Option.isSome_iff_exists.mp hsome
    obtain ⟨x, hx, hk⟩ := List.exists_of_findSome?_eq_some hl
    obtain ⟨rfl, how'⟩ := defBbIn_eq hfew halloca (List.mem_zipIdx_iff_getElem?.mp hx) hk
    rw [hl, how'.eq hbbs how]

end

end Dispatch

end Lagfx.Spirv
