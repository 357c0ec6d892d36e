import Mathlib.Data.Nat.Digits.Defs
import Lagfx.BitstreamCodec

/-! VBR words of any length: what the chunks of a stream denote, and when the reader returns
just that. -/
namespace Lagfx
open ByteMemory Bits

/-- The chunks of a VBR word at `pos`, without their high bits: it is set in all but the last. -/
def ChunksAt (buf : List UInt8) (n : Nat) : List Nat → Nat → Prop
  | [], _ => False
  | [d], pos => d < 2^(n-1) ∧ BitsAt buf pos (putBits n d)
  | d::ds, pos => d < 2^(n-1) ∧ BitsAt buf pos (putBits n (d+2^(n-1))) ∧
    ChunksAt buf n ds (pos+n)

/-- The chunks denote `∑ d * 2^(k*(n-1))`. -/
def vbrValue (n : Nat) (ds : List Nat) : Nat := Nat.ofDigits (2^(n-1)) ds

/-- More chunks than begin inside a word of `limit` bits. -/
def OverLong (limit n : Nat) (ds : List Nat) : Prop := limit ≤ (ds.length-1)*(n-1)

/-- A read of a word of `limit` bits is exact: what it returns is what the chunks denote,
behind them; a greater value or an over-long word is an error; and the writer's encoding of
every value is read. -/
structure VbrExact (limit : Nat) (buf : List UInt8) (n pos : Nat) : Prop where
  exact : ∀ v stop, readVbrOf limit buf n pos = some (v, stop) →
    ∃ ds, ChunksAt buf n ds pos ∧ vbrValue n ds = v ∧ stop = pos+n*ds.length
  rejects : ∀ ds, ChunksAt buf n ds pos → 2^limit ≤ vbrValue n ds ∨ OverLong limit n ds →
    readVbrOf limit buf n pos = none
  canonical : ∀ v < 2^limit, BitsAt buf pos (putVbr n v) →
    readVbrOf limit buf n pos = some (v, pos+(putVbr n v).length)

/-- The last chunk that begins inside the word has no bit beyond its end. -/
def LastChunkFits (limit : Nat) (buf : List UInt8) (n pos : Nat) : Prop :=
  ∀ ds d, ChunksAt buf n (ds++[d]) pos → ds.length*(n-1) < limit →
    d < 2^(limit-ds.length*(n-1))

/- Fields. -/

theorem bitsAt_shift {buf : List UInt8} {n pos : Nat} (h : pos+n ≤ 8*buf.length) :
    BitsAt buf pos (putBits n (leNat buf >>> pos)) := by
  refine ⟨by rwa [putBits_length], ?_⟩
  intro i hi
  rw [putBits_length] at hi
  rw [putBits_getElem? hi, Nat.testBit_shiftRight, leNat_testBit]

theorem putBits_mod (n v : Nat) : putBits n (v%2^n) = putBits n v := by
  apply List.map_congr_left
  intro i hi
  rw [Nat.testBit_mod_two_pow, decide_eq_true (List.mem_range.1 hi), Bool.true_and]

/-- What a field read returns stands there. -/
theorem readBits_some {buf : List UInt8} {n pos v stop : Nat}
    (h : readBits buf n pos = some (v, stop)) :
    BitsAt buf pos (putBits n v) ∧ v < 2^n ∧ stop = pos+n := by
  have hread := h
  rw [readBits] at h
  split_ifs at h with hn hlen
  have hat : BitsAt buf pos (putBits n (leNat buf >>> pos)) := bitsAt_shift (by omega)
  rw [readBits_at hat (by omega) (by omega)] at hread
  obtain ⟨rfl, rfl⟩ := Prod.mk.inj (Option.some.inj hread)
  exact ⟨by rwa [putBits_mod], Nat.mod_lt _ (Nat.two_pow_pos n), rfl⟩

section
variable {buf : List UInt8} {n limit : Nat}

/-- A chunk with the high bit off, and one with it on. -/
theorem chunk_last {d : Nat} (hd : d < 2^(n-1)) : d.testBit (n-1) = false ∧ d%2^(n-1) = d :=
  ⟨Nat.testBit_lt_two_pow hd, Nat.mod_eq_of_lt hd⟩

theorem chunk_more {d : Nat} (hd : d < 2^(n-1)) :
    (d+2^(n-1)).testBit (n-1) = true ∧ (d+2^(n-1))%2^(n-1) = d := by
  constructor
  · rw [Nat.add_comm, Nat.testBit_two_pow_add_eq, Nat.testBit_lt_two_pow hd]
    rfl
  · rw [Nat.add_mod_right, Nat.mod_eq_of_lt hd]

theorem chunk_fits (hn : 2 ≤ n) {d : Nat} (hd : d < 2^(n-1)) : d < 2^n ∧ d+2^(n-1) < 2^n := by
  have hpow : 2^n = 2^(n-1)+2^(n-1) := by
    rw [← Nat.two_mul, ← Nat.pow_succ']
    congr 1
    omega
  omega

/-- A chunk put into the accumulator, its bits beyond the word dropped. -/
theorem or_data {val shift d : Nat} (hval : val < 2^shift) (hs : shift ≤ limit) :
    val ||| (d <<< shift)%2^limit = val+2^shift*(d%2^(limit-shift)) := by
  have hpow : 2^limit = 2^shift*2^(limit-shift) := by
    rw [← pow_add, Nat.add_sub_cancel' hs]
  rw [Nat.shiftLeft_eq, Nat.mul_comm, hpow, Nat.mul_mod_mul_left, Nat.or_comm,
    ← Nat.two_pow_add_eq_or_of_lt hval, Nat.add_comm]

theorem chunksAt_cons (ds : List Nat) (hne : ds ≠ []) (d pos : Nat) :
    ChunksAt buf n (d::ds) pos ↔ d < 2^(n-1) ∧ BitsAt buf pos (putBits n (d+2^(n-1))) ∧
      ChunksAt buf n ds (pos+n) := by
  cases ds with
  | nil => exact absurd rfl hne
  | cons e ds => rfl

/-- The loop over the chunks of a word that is not over-long. -/
theorem vbrLoop_fits (hn : 2 ≤ n) (h32 : n ≤ 32) (ds : List Nat) (d : Nat) {val shift pos : Nat}
    (h : ChunksAt buf n (ds++[d]) pos) (hval : val < 2^shift)
    (hroom : shift+ds.length*(n-1) < limit) :
    vbrLoop buf n limit hn val shift pos =
      some (val+2^shift*(vbrValue n ds+2^(ds.length*(n-1))*(d%2^(limit-(shift+ds.length*(n-1))))),
        pos+n*(ds.length+1)) := by
  induction ds generalizing val shift pos with
  | nil =>
    obtain ⟨hd, hat⟩ := h
    obtain ⟨hbit, hdata⟩ := chunk_last hd
    rw [vbrLoop, readBits_lt_at hat (by omega) h32 (chunk_fits hn hd).1]
    simp only [List.length_nil, Nat.zero_mul, Nat.add_zero] at hroom ⊢
    simp only [hbit, hdata, if_true, or_data hval (le_of_lt hroom)]
    simp [vbrValue]
  | cons e ds ih =>
    obtain ⟨he, hat, hrest⟩ := (chunksAt_cons _ (by simp) e pos).1 h
    obtain ⟨hbit, hdata⟩ := chunk_more he
    rw [List.length_cons, Nat.succ_mul] at hroom
    have hshift : shift+(n-1) < limit := by omega
    have hsmall : e%2^(limit-shift) = e := by
      apply Nat.mod_eq_of_lt
      exact lt_of_lt_of_le he (Nat.pow_le_pow_right (by omega) (by omega))
    have hval' : val+2^shift*e < 2^(shift+(n-1)) := by
      have hmul : 2^shift*(e+1) ≤ 2^shift*2^(n-1) := Nat.mul_le_mul_left _ he
      rw [pow_add]
      rw [Nat.mul_succ] at hmul
      omega
    rw [vbrLoop, readBits_lt_at hat (by omega) h32 (chunk_fits hn he).2]
    simp only [hbit, hdata, or_data hval (by omega : shift ≤ limit), hsmall]
    rw [if_neg (by simp), if_neg (by omega), ih hrest hval' (by omega)]
    have hlen : shift+(n-1)+ds.length*(n-1) = shift+(e::ds).length*(n-1) := by
      rw [List.length_cons, Nat.succ_mul]
      omega
    rw [hlen]
    have hv : vbrValue n (e::ds) = e+2^(n-1)*vbrValue n ds := Nat.ofDigits_cons ..
    rw [hv, List.length_cons, Nat.succ_mul, pow_add, pow_add]
    simp only [Option.some.injEq, Prod.mk.injEq]
    constructor <;> ring

/-- An over-long word is an error. -/
theorem vbrLoop_overLong (hn : 2 ≤ n) (h32 : n ≤ 32) (ds : List Nat) (d : Nat)
    {val shift pos : Nat} (h : ChunksAt buf n (ds++[d]) pos)
    (hlong : limit ≤ shift+ds.length*(n-1)) (hs : shift < limit) :
    vbrLoop buf n limit hn val shift pos = none := by
  induction ds generalizing val shift pos with
  | nil =>
    rw [List.length_nil, Nat.zero_mul] at hlong
    omega
  | cons e ds ih =>
    obtain ⟨he, hat, hrest⟩ := (chunksAt_cons _ (by simp) e pos).1 h
    obtain ⟨hbit, hdata⟩ := chunk_more he
    rw [List.length_cons, Nat.succ_mul] at hlong
    rw [vbrLoop, readBits_lt_at hat (by omega) h32 (chunk_fits hn he).2]
    simp only [hbit]
    rw [if_neg (by simp)]
    split_ifs with hend
    · rfl
    · exact ih hrest (by omega) (by omega)

theorem chunk_cases (hn : 2 ≤ n) {c : Nat} (hc : c < 2^n) :
    c < 2^(n-1) ∨ ∃ e < 2^(n-1), c = e+2^(n-1) := by
  have hpow : 2^n = 2^(n-1)+2^(n-1) := by
    rw [← Nat.two_mul, ← Nat.pow_succ']
    congr 1
    omega
  by_cases hlast : c < 2^(n-1)
  · exact .inl hlast
  · exact .inr ⟨c-2^(n-1), by omega, by omega⟩

/-- A successful loop has read chunks. -/
theorem vbrLoop_some (hn : 2 ≤ n) (left : Nat) {val shift pos v stop : Nat}
    (hleft : limit-shift ≤ left) (hs : shift < limit)
    (h : vbrLoop buf n limit hn val shift pos = some (v, stop)) :
    ∃ ds d, ChunksAt buf n (ds++[d]) pos ∧ shift+ds.length*(n-1) < limit := by
  induction left generalizing val shift pos with
  | zero => omega
  | succ left ih =>
    rw [vbrLoop] at h
    cases hread : readBits buf n pos with
    | none =>
      rw [hread] at h
      cases h
    | some r =>
      obtain ⟨c, next⟩ := r
      obtain ⟨hat, hlt, rfl⟩ := readBits_some hread
      rw [hread] at h
      rcases chunk_cases hn hlt with hd | ⟨e, he, rfl⟩
      · exact ⟨[], c, ⟨hd, hat⟩, by simpa using hs⟩
      · simp only [(chunk_more he).1] at h
        rw [if_neg (by simp)] at h
        split_ifs at h with hend
        obtain ⟨ds, d, hds, hroom⟩ := ih (by omega) (by omega) h
        refine ⟨e::ds, d, (chunksAt_cons _ (by simp) e pos).2 ⟨he, hat, hds⟩, ?_⟩
        rw [List.length_cons, Nat.succ_mul]
        omega

theorem chunksAt_snoc {ds : List Nat} {pos : Nat} (h : ChunksAt buf n ds pos) :
    ∃ init d, ds = init++[d] ∧ d < 2^(n-1) := by
  induction ds generalizing pos with
  | nil => cases h
  | cons e ds ih =>
    cases ds with
    | nil => exact ⟨[], e, rfl, h.1⟩
    | cons e' ds =>
      obtain ⟨init, d, heq, hd⟩ := ih h.2.2
      exact ⟨e::init, d, by rw [heq, List.cons_append], hd⟩

theorem chunksAt_lt {ds : List Nat} {pos : Nat} (h : ChunksAt buf n ds pos) :
    ∀ d ∈ ds, d < 2^(n-1) := by
  induction ds generalizing pos with
  | nil => cases h
  | cons e ds ih =>
    intro d hd
    cases ds with
    | nil =>
      rw [List.mem_singleton] at hd
      exact hd ▸ h.1
    | cons e' ds =>
      rcases List.mem_cons.1 hd with rfl | hd
      · exact h.1
      · exact ih h.2.2 d hd

theorem vbrValue_snoc (ds : List Nat) (d : Nat) :
    vbrValue n (ds++[d]) = vbrValue n ds+2^(ds.length*(n-1))*d := by
  rw [vbrValue, Nat.ofDigits_append, Nat.ofDigits_singleton, ← pow_mul, Nat.mul_comm (n-1)]
  rfl

theorem vbrValue_lt (hn : 2 ≤ n) {ds : List Nat} (h : ∀ d ∈ ds, d < 2^(n-1)) :
    vbrValue n ds < 2^(ds.length*(n-1)) := by
  rw [Nat.mul_comm, pow_mul]
  exact Nat.ofDigits_lt_base_pow_length
    (lt_of_lt_of_le (by decide) (Nat.pow_le_pow_right (by decide) (by omega : 1 ≤ n-1))) h

/-- A value goes beyond the word exactly when its last chunk does. -/
theorem vbrValue_fits (hn : 2 ≤ n) {ds : List Nat} (h : ∀ d ∈ ds, d < 2^(n-1)) {d : Nat}
    (hroom : ds.length*(n-1) < limit) :
    vbrValue n (ds++[d]) < 2^limit ↔ d < 2^(limit-ds.length*(n-1)) := by
  have hlt := vbrValue_lt hn h
  have hpow : 2^limit = 2^(ds.length*(n-1))*2^(limit-ds.length*(n-1)) := by
    rw [← pow_add, Nat.add_sub_cancel' (le_of_lt hroom)]
  rw [vbrValue_snoc, hpow]
  constructor
  · intro hv
    by_contra hd
    have hmul := Nat.mul_le_mul_left (2^(ds.length*(n-1))) (not_lt.1 hd)
    omega
  · intro hd
    have hmul : 2^(ds.length*(n-1))*(d+1) ≤ 2^(ds.length*(n-1))*2^(limit-ds.length*(n-1)) :=
      Nat.mul_le_mul_left _ hd
    rw [Nat.mul_succ] at hmul
    omega

/-- What a read of chunks gives. -/
theorem readVbrOf_chunks (hn : 2 ≤ n) (h32 : n ≤ 32) (hlim : 0 < limit) {ds : List Nat}
    {d pos : Nat} (h : ChunksAt buf n (ds++[d]) pos) :
    readVbrOf limit buf n pos = if ds.length*(n-1) < limit then
      some (vbrValue n (ds++[d%2^(limit-ds.length*(n-1))]), pos+n*(ds.length+1)) else none := by
  rw [readVbrOf, dif_pos ⟨hn, h32⟩]
  split_ifs with hroom
  · have hloop : vbrLoop buf n limit hn 0 0 pos = _ :=
      vbrLoop_fits hn h32 ds d h (by simp) (by omega)
    rw [hloop, vbrValue_snoc]
    simp
  · exact vbrLoop_overLong hn h32 ds d h (by omega) hlim

theorem vbrExact_iff (hn : 2 ≤ n) (h32 : n ≤ 32) (hlim : 0 < limit) (pos : Nat) :
    VbrExact limit buf n pos ↔ LastChunkFits limit buf n pos := by
  constructor
  · intro h ds d hds hroom
    by_contra hd
    have hinit : ∀ e ∈ ds, e < 2^(n-1) := fun e he =>
      chunksAt_lt hds e (List.mem_append_left _ he)
    have hbig : 2^limit ≤ vbrValue n (ds++[d]) :=
      not_lt.1 fun hlt => hd ((vbrValue_fits hn hinit hroom).1 hlt)
    have hnone := h.rejects _ hds (.inl hbig)
    rw [readVbrOf_chunks hn h32 hlim hds, if_pos hroom] at hnone
    cases hnone
  · intro h
    refine ⟨?_, ?_, fun v hv hat => readVbrOf_at hat hn h32 hv⟩
    · intro v stop hread
      have hloop := hread
      rw [readVbrOf, dif_pos ⟨hn, h32⟩] at hloop
      obtain ⟨ds, d, hds, hroom⟩ := vbrLoop_some hn limit (by omega) hlim hloop
      rw [Nat.zero_add] at hroom
      rw [readVbrOf_chunks hn h32 hlim hds, if_pos hroom,
        Nat.mod_eq_of_lt (h ds d hds hroom)] at hread
      obtain ⟨rfl, rfl⟩ := Prod.mk.inj (Option.some.inj hread)
      exact ⟨_, hds, rfl, by rw [List.length_append, List.length_singleton]⟩
    · intro ds hds hbad
      obtain ⟨init, d, rfl, -⟩ := chunksAt_snoc hds
      have hinit : ∀ e ∈ init, e < 2^(n-1) := fun e he =>
        chunksAt_lt hds e (List.mem_append_left _ he)
      rw [readVbrOf_chunks hn h32 hlim hds]
      refine if_neg fun hroom => ?_
      rcases hbad with hbig | hlong
      · exact absurd ((vbrValue_fits hn hinit hroom).2 (h init d hds hroom)) (not_lt.2 hbig)
      · rw [OverLong, List.length_append, List.length_singleton, Nat.add_sub_cancel] at hlong
        omega

end

/-- The reads of both widths are exact just where the last chunk fits. -/
theorem vbr_reads_exact_iff {n : Nat} (hn : 2 ≤ n) (h32 : n ≤ 32) (buf : List UInt8)
    (pos : Nat) :
    (VbrExact 32 buf n pos ↔ LastChunkFits 32 buf n pos) ∧
      (VbrExact 64 buf n pos ↔ LastChunkFits 64 buf n pos) :=
  ⟨vbrExact_iff hn h32 (by decide) pos, vbrExact_iff hn h32 (by decide) pos⟩

theorem vbr6_of_five_exact : (VbrExact 32 [5] 6 0 ↔ LastChunkFits 32 [5] 6 0) ∧
    (VbrExact 64 [5] 6 0 ↔ LastChunkFits 64 [5] 6 0) :=
  vbr_reads_exact_iff (by decide) (by decide) [5] 0

/-- `2^32` in seven chunks of 6 bits is read as 0. -/
theorem vbr6_truncated : ¬VbrExact 32 [32, 8, 130, 32, 72, 0] 6 0 := by
  intro h
  have hds : ChunksAt [32, 8, 130, 32, 72, 0] 6 ([0, 0, 0, 0, 0, 0]++[4]) 0 := by
    refine ⟨?_, ?_, ?_, ?_, ?_, ?_, ?_, ?_, ?_, ?_, ?_, ?_, ?_, ?_⟩ <;> decide
  have hnone := h.rejects _ hds (.inl (by decide))
  rw [readVbrOf_chunks (by decide) (by decide) (by decide) hds] at hnone
  cases hnone

end Lagfx
