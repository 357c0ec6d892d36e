import Lagfx.Bitstream

/-! The LLVM bitstream writer, as the specification of what a stream holds, and that
the reader of `Lagfx.Bitstream` inverts it. -/
namespace Lagfx
open ByteMemory Bits

theorem readBits_at {buf : List UInt8} {n v pos : Nat} (h : BitsAt buf pos (putBits n v))
    (h0 : 0 < n) (h32 : n ≤ 32) : readBits buf n pos = some (v%2^n, pos+n) := by
  have hin := h.1
  rw [putBits_length] at hin
  have hval := h.field (show 8*(pos/8) ≤ pos by omega)
    (show pos+n ≤ 8*(pos/8+min ((pos%8+n+7)/8) 5) by omega)
  rw [show pos-8*(pos/8) = pos%8 by omega] at hval
  rw [readBits, if_neg (by omega), if_neg (by omega)]
  simp only [hval]

theorem readBits_lt_at {buf : List UInt8} {n v pos : Nat} (h : BitsAt buf pos (putBits n v))
    (h0 : 0 < n) (h32 : n ≤ 32) (hv : v < 2^n) : readBits buf n pos = some (v, pos+n) := by
  rw [readBits_at h h0 h32, Nat.mod_eq_of_lt hv]

/-- One chunk more of `v` in the accumulator. -/
theorem or_chunk {v limit : Nat} (hv : v < 2^limit) (shift m : Nat) :
    v%2^shift ||| ((v/2^shift%2^m) <<< shift) % 2^limit = v%2^(shift+m) := by
  have hsplit : v%2^(shift+m) = 2^shift*(v/2^shift%2^m)+v%2^shift := by
    rw [pow_add, Nat.mod_mul]
    omega
  have hle : 2^shift*(v/2^shift%2^m) < 2^limit := by
    have := Nat.mod_le v (2^(shift+m))
    omega
  rw [Nat.shiftLeft_eq, Nat.mul_comm, Nat.mod_eq_of_lt hle, hsplit, Nat.or_comm,
    Nat.two_pow_add_eq_or_of_lt (Nat.mod_lt _ (Nat.two_pow_pos shift))]

theorem vbrLoop_at {buf : List UInt8} {n limit v : Nat} (hn : 2 ≤ n) (h32 : n ≤ 32)
    (hv : v < 2^limit) (r : Nat) : ∀ shift pos, v/2^shift = r → BitsAt buf pos (putVbr n r) →
      vbrLoop buf n limit hn (v%2^shift) shift pos = some (v, pos+(putVbr n r).length) := by
  induction r using Nat.strongRecOn with
  | ind r ih =>
    intro shift pos hr hb
    rw [vbrLoop]
    by_cases hlast : r < 2^(n-1)
    · -- the chunk without its high bit holds all that is left
      have hfit : r < 2^n := lt_of_lt_of_le hlast (Nat.pow_le_pow_right (by omega) (by omega))
      rw [putVbr_last hlast] at hb ⊢
      rw [readBits_lt_at hb (by omega) h32 hfit]
      simp only [Nat.testBit_lt_two_pow hlast, ite_true]
      rw [← hr, or_chunk hv, putBits_length, Nat.mod_eq_of_lt]
      rw [pow_add, Nat.mul_comm]
      exact Nat.lt_mul_of_div_lt (hr ▸ hlast) (Nat.two_pow_pos shift)
    · have hle : 2^(n-1) ≤ r := by omega
      have hpow : 2^n = 2^(n-1)+2^(n-1) := by
        rw [← Nat.two_mul, ← Nat.pow_succ']
        congr 1
        omega
      have hmod := Nat.mod_lt r (Nat.two_pow_pos (n-1))
      have hmore : (r%2^(n-1)+2^(n-1)).testBit (n-1) = true := by
        rw [Nat.add_comm, Nat.testBit_two_pow_add_eq, Nat.testBit_lt_two_pow hmod]
        rfl
      have hdata : (r%2^(n-1)+2^(n-1)) % 2^(n-1) = r%2^(n-1) := by
        rw [Nat.add_mod_right, Nat.mod_mod]
      have hroom : shift+(n-1) < limit := by
        by_contra hbig
        have h1 : 2^limit ≤ 2^(shift+(n-1)) := Nat.pow_le_pow_right (by omega) (by omega)
        have h2 : 2^shift*2^(n-1) ≤ 2^shift*r := Nat.mul_le_mul_left _ hle
        have h3 : 2^shift*r ≤ v := by rw [← hr]; exact Nat.mul_div_le v (2^shift)
        rw [pow_add] at h1
        omega
      have hnext : v/2^(shift+(n-1)) = r/2^(n-1) := by
        rw [pow_add, ← Nat.div_div_eq_div_mul, hr]
      have h2 : 2^1 ≤ 2^(n-1) := Nat.pow_le_pow_right (by omega) (by omega)
      rw [putVbr_more hn hle] at hb ⊢
      obtain ⟨hchunk, hrest⟩ := bitsAt_append.mp hb
      rw [putBits_length] at hrest
      rw [readBits_lt_at hchunk (by omega) h32 (by omega)]
      simp only [hmore, hdata]
      rw [if_neg (by simp), if_neg (by omega), ← hr, or_chunk hv]
      rw [ih (r/2^(n-1)) (Nat.div_lt_self (by omega) (by omega)) _ _ hnext hrest]
      simp [hr, Nat.add_assoc]

theorem readVbrOf_at {buf : List UInt8} {n limit v pos : Nat} (h : BitsAt buf pos (putVbr n v))
    (hn : 2 ≤ n) (h32 : n ≤ 32) (hv : v < 2^limit) :
    readVbrOf limit buf n pos = some (v, pos+(putVbr n v).length) := by
  have hloop := vbrLoop_at hn h32 hv v 0 pos (by simp) h
  rw [pow_zero, Nat.mod_one] at hloop
  rw [readVbrOf, dif_pos ⟨hn, h32⟩, hloop]

theorem readVbr_at {buf : List UInt8} {n v pos : Nat} (h : BitsAt buf pos (putVbr n v))
    (hn : 2 ≤ n) (h32 : n ≤ 32) (hv : v < 2^32) :
    readVbr buf n pos = some (v, pos+(putVbr n v).length) :=
  readVbrOf_at h hn h32 hv

theorem readVbr64_at {buf : List UInt8} {n v pos : Nat} (h : BitsAt buf pos (putVbr n v))
    (hn : 2 ≤ n) (h32 : n ≤ 32) (hv : v < 2^64) :
    readVbr64 buf n pos = some (v, pos+(putVbr n v).length) :=
  readVbrOf_at h hn h32 hv

/- The writer's side of a pattern. -/

def putAbbrevOp : AbbrevOp → List Bool
  | .literal v => putBits 1 1 ++ putVbr 8 v
  | .fixed w => putBits 1 0 ++ (putBits 3 1 ++ putVbr 5 w)
  | .vbr w => putBits 1 0 ++ (putBits 3 2 ++ putVbr 5 w)
  | .array => putBits 1 0 ++ putBits 3 3
  | .char6 => putBits 1 0 ++ putBits 3 4
  | .blob => putBits 1 0 ++ putBits 3 5

def putAbbrevOps (ab : Abbrev) : List Bool := ab.flatMap putAbbrevOp

def char6Encode (v : Nat) : Nat :=
  if 97 ≤ v then v-97
  else if v = 95 then 63
  else if 65 ≤ v then v-65+26
  else if 48 ≤ v then v-48+52
  else 62

/-- The scalar operands of a pattern. -/
def AbbrevOp.Scalar : AbbrevOp → Prop
  | .literal v => v < 2^64
  | .fixed w => w ≤ 64
  | .vbr w => 2 ≤ w ∧ w ≤ 32
  | .char6 => True
  | .array => False
  | .blob => False

/-- The values a scalar operand can carry. -/
def AbbrevOp.Fits : AbbrevOp → Nat → Prop
  | .literal l, v => v = l
  | .fixed w, v => v < 2^w
  | .vbr _, v => v < 2^64
  | .char6, v => ∃ i, i < 64 ∧ v = char6Decode i
  | .array, _ => False
  | .blob, _ => False

def putValue : AbbrevOp → Nat → List Bool
  | .fixed w, v => putBits w v
  | .vbr w, v => putVbr w v
  | .char6, v => putBits 6 (char6Encode v)
  | _, _ => []

/-- What may follow the record code: scalars, and at the end an array or a blob. -/
def LegalTail : Abbrev → Prop
  | [] => True
  | [.array, elem] => elem.Scalar
  | [.blob] => True
  | op :: ops => op.Scalar ∧ LegalTail ops

/-- A legal pattern starts with the scalar that carries the record code. -/
def LegalAbbrev : Abbrev → Prop
  | [] => False
  | op :: ops => op.Scalar ∧ LegalTail ops ∧ ops.length+1 ≤ abbrevMaxOps

def FitsTail : Abbrev → List Nat → Option (List UInt8) → Prop
  | [], ops, blob => ops = [] ∧ blob = none
  | [.array, elem], ops, blob => (∀ v ∈ ops, elem.Fits v) ∧ blob = none
  | [.blob], ops, blob => ops = [] ∧ ∃ bs, blob = some bs ∧ bs.length < 2^32
  | _ :: _, [], _ => False
  | op :: t, v :: ops, blob => op.Fits v ∧ FitsTail t ops blob

def FitsAbbrev : Abbrev → BsRecord → Prop
  | [], _ => False
  | op :: t, r => op.Fits r.code ∧ FitsTail t r.ops r.blob

def putBlob (bs : List UInt8) (pos : Nat) : List Bool :=
  let len := putVbr 6 bs.length
  let head := len ++ pad32 (pos+len.length)
  head ++ (putBytes bs ++ pad32 (pos+head.length+8*bs.length))

def putTail : Abbrev → List Nat → Option (List UInt8) → Nat → List Bool
  | [], _, _, _ => []
  | [.array, elem], ops, _, _ => putVbr 6 ops.length ++ ops.flatMap (putValue elem)
  | [.blob], _, blob, pos => putBlob (blob.getD []) pos
  | _ :: _, [], _, _ => []
  | op :: t, v :: ops, blob, pos =>
    putValue op v ++ putTail t ops blob (pos+(putValue op v).length)

def putRecord : Abbrev → BsRecord → Nat → List Bool
  | [], _, _ => []
  | op :: t, r, pos =>
    putValue op r.code ++ putTail t r.ops r.blob (pos+(putValue op r.code).length)

theorem char6Encode_decode {i : Nat} (h : i < 64) : char6Encode (char6Decode i) = i := by
  revert h
  revert i
  decide

theorem decodeOneValue_at {buf : List UInt8} {op : AbbrevOp} {v pos : Nat} (hs : op.Scalar)
    (hf : op.Fits v) (h : BitsAt buf pos (putValue op v)) :
    decodeOneValue buf op pos = some (v, pos+(putValue op v).length) := by
  cases op with
  | literal l =>
    obtain rfl := hf
    rfl
  | fixed w =>
    have hw : w ≤ 64 := hs
    have hv : v < 2^w := hf
    simp only [putValue] at h ⊢
    rw [decodeOneValue, putBits_length]
    by_cases h0 : w = 0
    · have hz : v = 0 := by simpa [h0] using hv
      simp [h0, hz]
    by_cases h32 : 32 < w
    · -- two halves, the low 32 bits first
      have hadd := putBits_add 32 (w-32) v
      rw [show 32+(w-32) = w by omega] at hadd
      rw [hadd] at h
      obtain ⟨hlo, hhi⟩ := bitsAt_append.mp h
      rw [putBits_length] at hhi
      have hpow : 2^w = 2^32*2^(w-32) := by
        rw [← pow_add]
        congr 1
        omega
      have hhi := readBits_lt_at hhi (by omega) (by omega)
        (Nat.div_lt_of_lt_mul (by rw [← hpow]; exact hv))
      rw [if_neg h0, if_pos h32, readBits_at hlo (by omega) (by omega)]
      simp only [Option.bind_eq_bind, Option.bind_some, hhi]
      rw [Nat.or_comm, Nat.shiftLeft_eq, Nat.mul_comm,
        ← Nat.two_pow_add_eq_or_of_lt (Nat.mod_lt _ (Nat.two_pow_pos 32)), Nat.div_add_mod,
        Nat.add_assoc, show 32+(w-32) = w by omega]
    · rw [if_neg h0, if_neg h32, readBits_lt_at h (by omega) (by omega) hv]
  | vbr w => exact readVbr64_at h hs.1 hs.2 hf
  | char6 =>
    obtain ⟨i, hi, rfl⟩ := hf
    simp only [putValue, char6Encode_decode hi] at h ⊢
    rw [decodeOneValue, readBits_lt_at h (by omega) (by omega) (by omega), putBits_length]
    rfl
  | array => exact hs.elim
  | blob => exact hs.elim

theorem decodeElems_at {buf : List UInt8} {elem : AbbrevOp} (hs : elem.Scalar) {c : Nat}
    {vs : List Nat} (hf : ∀ v ∈ vs, elem.Fits v) (r : PartialRecord) (hc : r.code = some c)
    (pos : Nat) (h : BitsAt buf pos (vs.flatMap (putValue elem))) :
    decodeElems buf elem vs.length r pos =
      some ({ r with ops := r.ops ++ vs }, pos+(vs.flatMap (putValue elem)).length) := by
  induction vs generalizing r pos with
  | nil => simp [decodeElems]
  | cons v vs ih =>
    rw [List.flatMap_cons] at h ⊢
    obtain ⟨hv, hvs⟩ := bitsAt_append.mp h
    rw [List.length_cons, decodeElems, decodeOneValue_at hs (hf v (by simp)) hv]
    simp only [Option.bind_eq_bind, Option.bind_some]
    have hpush : r.push v = { r with ops := r.ops ++ [v] } := by simp [PartialRecord.push, hc]
    rw [hpush, ih (fun w hw => hf w (List.mem_cons_of_mem _ hw)) { r with ops := r.ops ++ [v] }
      hc _ hvs]
    simp [Nat.add_assoc]

theorem legalTail_cons {op : AbbrevOp} {t : Abbrev} {v : Nat} (h : op.Fits v)
    (hl : LegalTail (op::t)) : op.Scalar ∧ LegalTail t := by
  cases op with
  | array => exact h.elim
  | blob => exact h.elim
  | _ => exact hl

theorem putTail_cons {op : AbbrevOp} {v : Nat} (h : op.Fits v) (t : Abbrev) (ops : List Nat)
    (blob : Option (List UInt8)) (pos : Nat) : putTail (op::t) (v::ops) blob pos =
      putValue op v ++ putTail t ops blob (pos+(putValue op v).length) := by
  cases op with
  | array => exact h.elim
  | blob => exact h.elim
  | _ => rfl

theorem decodeOps_scalar {buf : List UInt8} {op : AbbrevOp} {v pos : Nat} (hs : op.Scalar)
    (hf : op.Fits v) (h : BitsAt buf pos (putValue op v)) (t : Abbrev) (r : PartialRecord)
    (hroom : ¬ (r.code.isSome ∧ recordMaxOps ≤ r.ops.length)) :
    decodeOps buf (op::t) r pos = decodeOps buf t (r.push v) (pos+(putValue op v).length) := by
  have hstep : decodeOps buf (op::t) r pos = (decodeOneValue buf op pos).bind fun p =>
      if r.code.isSome ∧ recordMaxOps ≤ r.ops.length then none
      else decodeOps buf t (r.push p.1) p.2 := by
    cases op with
    | array => exact hs.elim
    | blob => exact hs.elim
    | _ => rfl
  rw [hstep, decodeOneValue_at hs hf h, Option.bind_some]
  simp only [if_neg hroom]

theorem putBlob_length (bs : List UInt8) (pos : Nat) : pos+(putBlob bs pos).length =
    align32 (align32 (pos+(putVbr 6 bs.length).length)+8*bs.length) := by
  have h1 := pad32_length (pos+(putVbr 6 bs.length).length)
  have h2 := pad32_length (align32 (pos+(putVbr 6 bs.length).length)+8*bs.length)
  simp only [putBlob, List.length_append, putBytes_length, ← Nat.add_assoc] at h1 h2 ⊢
  rw [h1, h2]

theorem decodeOps_blob {buf bs : List UInt8} {pos : Nat} (hl : bs.length < 2^32)
    (h : BitsAt buf pos (putBlob bs pos)) (r : PartialRecord) :
    decodeOps buf [.blob] r pos =
      some ({ r with blob := some bs }, pos+(putBlob bs pos).length) := by
  rw [putBlob_length]
  simp only [putBlob] at h
  obtain ⟨hhead, hdata⟩ := bitsAt_append.mp h
  obtain ⟨hlen, -⟩ := bitsAt_append.mp hhead
  obtain ⟨hdata, -⟩ := bitsAt_append.mp hdata
  have halign := align32_mod (pos+(putVbr 6 bs.length).length)
  rw [List.length_append, ← Nat.add_assoc, pad32_length,
    show align32 (pos+(putVbr 6 bs.length).length) =
      8*(align32 (pos+(putVbr 6 bs.length).length)/8) by omega] at hdata
  have hin := hdata.1
  rw [putBytes_length] at hin
  rw [decodeOps, readVbr_at hlen (by omega) (by omega) hl]
  simp only [Option.bind_eq_bind, Option.bind_some]
  rw [if_neg (by omega), hdata.bytes]
  rfl

theorem decodeOps_tail {buf : List UInt8} {t : Abbrev} {ops : List Nat}
    {blob : Option (List UInt8)} (hl : LegalTail t) (hf : FitsTail t ops blob)
    (r : PartialRecord) {c : Nat} (hc : r.code = some c) (hb : r.blob = none) (pos : Nat)
    (hroom : r.ops.length+ops.length ≤ recordMaxOps) (h : BitsAt buf pos (putTail t ops blob pos)) :
    decodeOps buf t r pos = some ({ r with ops := r.ops ++ ops, blob := blob },
      pos+(putTail t ops blob pos).length) := by
  fun_induction FitsTail t ops blob generalizing r pos with
  | case1 ops blob =>
    obtain ⟨rfl, rfl⟩ := hf
    simp [decodeOps, putTail, ← hb]
  | case2 elem ops blob =>
    obtain ⟨hfit, rfl⟩ := hf
    rw [putTail] at h ⊢
    obtain ⟨hlen, helems⟩ := bitsAt_append.mp h
    have hcap : recordMaxOps = 1024 := rfl
    have hu : u32 (r.ops.length+ops.length) = r.ops.length+ops.length :=
      Nat.mod_eq_of_lt (by omega)
    rw [decodeOps, readVbr_at hlen (by omega) (by omega) (by omega)]
    simp only [Option.bind_eq_bind, Option.bind_some]
    rw [if_neg (by omega), decodeElems_at hl hfit r hc _ helems]
    simp [decodeOps, Nat.add_assoc, ← hb]
  | case3 ops blob =>
    obtain ⟨rfl, bs, rfl, hlen⟩ := hf
    rw [putTail, Option.getD_some] at h ⊢
    rw [decodeOps_blob hlen h r, List.append_nil]
  | case4 => exact hf.elim
  | case5 op t v ops blob hna hnb ih =>
    obtain ⟨hfv, hft⟩ := hf
    obtain ⟨hs, hlt⟩ := legalTail_cons hfv hl
    rw [putTail_cons hfv] at h ⊢
    obtain ⟨hv, ht⟩ := bitsAt_append.mp h
    rw [List.length_cons] at hroom
    have hpush : r.push v = { r with ops := r.ops ++ [v] } := by simp [PartialRecord.push, hc]
    rw [decodeOps_scalar hs hfv hv t r (by omega), hpush,
      ih hlt hft { r with ops := r.ops ++ [v] } hc hb _ (by simp; omega) ht]
    simp [Nat.add_assoc]

/-- A record written with an abbreviation is decoded with it. -/
theorem abbrevDecodeRecord_at {buf : List UInt8} {table : List Abbrev} {ab : Abbrev} {i pos : Nat}
    {r : BsRecord} (hi : table[i]? = some ab) (hl : LegalAbbrev ab) (hf : FitsAbbrev ab r)
    (hcode : r.code < 2^32) (hops : r.ops.length ≤ recordMaxOps)
    (h : BitsAt buf pos (putRecord ab r pos)) :
    abbrevDecodeRecord buf table (4+i) pos = some (r, pos+(putRecord ab r pos).length) := by
  cases ab with
  | nil => exact hl.elim
  | cons op t =>
    obtain ⟨hs, hlt, -⟩ := hl
    obtain ⟨hfc, hft⟩ := hf
    rw [putRecord] at h ⊢
    obtain ⟨hc, ht⟩ := bitsAt_append.mp h
    have hfirst := decodeOps_scalar hs hfc hc t {} (by simp)
    have hu : u32 r.code = r.code := Nat.mod_eq_of_lt hcode
    rw [show PartialRecord.push {} r.code = { code := some r.code } by
      simp [PartialRecord.push, hu]] at hfirst
    have htail := decodeOps_tail hlt hft { code := some r.code } rfl rfl _ (by simpa using hops) ht
    rw [abbrevDecodeRecord, if_neg (by omega), Nat.add_sub_cancel_left, hi]
    simp only [Option.bind_eq_bind, Option.bind_some]
    rw [hfirst, htail]
    simp [Nat.add_assoc]

theorem readOps_at {buf : List UInt8} {ops : List Nat} (hops : ∀ v ∈ ops, v < 2^64) (pos : Nat)
    (h : BitsAt buf pos (ops.flatMap (putVbr 6))) :
    readOps buf ops.length pos = some (ops, pos+(ops.flatMap (putVbr 6)).length) := by
  induction ops generalizing pos with
  | nil => rfl
  | cons v ops ih =>
    rw [List.flatMap_cons] at h ⊢
    obtain ⟨hv, hrest⟩ := bitsAt_append.mp h
    rw [List.length_cons, readOps, readVbr64_at hv (by omega) (by omega) (hops v (by simp))]
    simp only [Option.bind_eq_bind, Option.bind_some]
    rw [ih (fun w hw => hops w (List.mem_cons_of_mem _ hw)) _ hrest]
    simp [Nat.add_assoc]

/-- The operands a pattern may hold, scalar or not. -/
def AbbrevOp.Legal : AbbrevOp → Prop
  | .literal v => v < 2^64
  | .fixed w => w ≤ 64
  | .vbr w => 2 ≤ w ∧ w ≤ 32
  | _ => True

theorem AbbrevOp.Scalar.legal {op : AbbrevOp} (h : op.Scalar) : op.Legal := by
  cases op with
  | array => exact h.elim
  | blob => exact h.elim
  | _ => exact h

theorem LegalTail.legal {t : Abbrev} (h : LegalTail t) : ∀ op ∈ t, op.Legal := by
  fun_induction LegalTail t with
  | case1 => simp
  | case2 elem =>
    have he := AbbrevOp.Scalar.legal h
    simpa [AbbrevOp.Legal] using he
  | case3 => simp [AbbrevOp.Legal]
  | case4 op ops hna hnb ih =>
    intro o ho
    obtain rfl | ho := List.mem_cons.mp ho
    · exact h.1.legal
    · exact ih h.2 o ho

theorem LegalAbbrev.legal {ab : Abbrev} (h : LegalAbbrev ab) :
    (∀ op ∈ ab, op.Legal) ∧ 0 < ab.length ∧ ab.length ≤ abbrevMaxOps := by
  cases ab with
  | nil => exact h.elim
  | cons op t =>
    refine ⟨?_, by simp, h.2.2⟩
    intro o ho
    obtain rfl | ho := List.mem_cons.mp ho
    · exact h.1.legal
    · exact h.2.1.legal o ho

theorem readAbbrevOp_at {buf : List UInt8} {op : AbbrevOp} {pos : Nat} (hl : op.Legal)
    (h : BitsAt buf pos (putAbbrevOp op)) :
    readAbbrevOp buf pos = some (op, pos+(putAbbrevOp op).length) := by
  cases op with
  | literal v =>
    obtain ⟨h1, hv⟩ := bitsAt_append.mp h
    rw [putBits_length] at hv
    rw [readAbbrevOp, readBits_lt_at h1 (by omega) (by omega) (by omega)]
    simp [readVbr64_at hv (by omega) (by omega) hl, putAbbrevOp, Nat.add_assoc]
  | fixed w =>
    have hw : w ≤ 64 := hl
    obtain ⟨h1, h2⟩ := bitsAt_append.mp h
    obtain ⟨h2, h3⟩ := bitsAt_append.mp h2
    simp only [putBits_length] at h2 h3
    have h3 : BitsAt buf (pos+4) (putVbr 5 w) := h3
    rw [readAbbrevOp, readBits_lt_at h1 (by omega) (by omega) (by omega)]
    simp [readBits_lt_at h2 (by omega) (by omega) (by omega),
      readVbr_at h3 (by omega) (by omega) (by omega), putAbbrevOp, Nat.add_assoc]
    omega
  | vbr w =>
    have hw : w ≤ 32 := hl.2
    obtain ⟨h1, h2⟩ := bitsAt_append.mp h
    obtain ⟨h2, h3⟩ := bitsAt_append.mp h2
    simp only [putBits_length] at h2 h3
    have h3 : BitsAt buf (pos+4) (putVbr 5 w) := h3
    rw [readAbbrevOp, readBits_lt_at h1 (by omega) (by omega) (by omega)]
    simp [readBits_lt_at h2 (by omega) (by omega) (by omega),
      readVbr_at h3 (by omega) (by omega) (by omega), putAbbrevOp, Nat.add_assoc]
    omega
  | array | char6 | blob =>
    obtain ⟨h1, h2⟩ := bitsAt_append.mp h
    rw [putBits_length] at h2
    rw [readAbbrevOp, readBits_lt_at h1 (by omega) (by omega) (by omega)]
    simp [readBits_lt_at h2 (by omega) (by omega) (by omega), putAbbrevOp, Nat.add_assoc]

theorem readAbbrevOps_at {buf : List UInt8} {ab : Abbrev} (hl : ∀ op ∈ ab, op.Legal) (pos : Nat)
    (h : BitsAt buf pos (putAbbrevOps ab)) :
    readAbbrevOps buf ab.length pos = some (ab, pos+(putAbbrevOps ab).length) := by
  induction ab generalizing pos with
  | nil => rfl
  | cons op ab ih =>
    rw [putAbbrevOps, List.flatMap_cons, ← putAbbrevOps] at h ⊢
    obtain ⟨hop, hrest⟩ := bitsAt_append.mp h
    rw [List.length_cons, readAbbrevOps, readAbbrevOp_at (hl op (by simp)) hop]
    simp only [Option.bind_eq_bind, Option.bind_some]
    rw [ih (fun o ho => hl o (List.mem_cons_of_mem _ ho)) _ hrest]
    simp [Nat.add_assoc]

theorem abbrevTableDefine_at {buf : List UInt8} {table : List Abbrev} {ab : Abbrev} {pos : Nat}
    (hl : LegalAbbrev ab) (hroom : table.length < abbrevMaxPerBlock)
    (h : BitsAt buf pos (putVbr 5 ab.length ++ putAbbrevOps ab)) :
    abbrevTableDefine buf table pos =
      some (table ++ [ab], pos+(putVbr 5 ab.length ++ putAbbrevOps ab).length) := by
  obtain ⟨hops, hpos, hmax⟩ := hl.legal
  have hcap : abbrevMaxOps = 64 := rfl
  obtain ⟨hn, hab⟩ := bitsAt_append.mp h
  rw [abbrevTableDefine, if_neg (by omega), readVbr_at hn (by omega) (by omega) (by omega)]
  simp only [Option.bind_eq_bind, Option.bind_some]
  rw [if_neg (by omega), readAbbrevOps_at hops _ hab]
  simp [Nat.add_assoc]

end Lagfx
