import Lagfx.BitstreamVbr

/-! The stores of the abbreviated-record decoder into the operand buffer of its caller, in
runs that fail too. -/
namespace Lagfx
open Bits

/-- A record in progress: its code, the operand count, a 32-bit word, and the stores so far,
each with its index. -/
structure RecordStores where
  code : Option Nat := none
  opCount : Nat := 0
  stores : List (Nat × Nat) := []
  blob : Option (List UInt8) := none
deriving DecidableEq, Repr

namespace RecordStores

/-- The first value is the code; any other goes to `scratch_ops[op_count++]`. -/
def push (s : RecordStores) (v : Nat) : RecordStores :=
  match s.code with
  | none => { s with code := some (u32 v) }
  | some _ => { s with opCount := u32 (s.opCount+1), stores := s.stores++[(s.opCount, v)] }

end RecordStores

section
variable (buf : List UInt8) (capacity : Nat)

/-- The elements of an array; a run ends with the position behind it, or `none`. -/
def storeElems (elem : AbbrevOp) : Nat → RecordStores → Nat → RecordStores × Option Nat
  | 0, s, pos => (s, some pos)
  | n+1, s, pos =>
    match decodeOneValue buf elem pos with
    | none => (s, none)
    | some (v, pos) => storeElems elem n (s.push v) pos

/-- The loop over the pattern. The sum of the test for an array is a 32-bit word. -/
def storeOps : Abbrev → RecordStores → Nat → RecordStores × Option Nat
  | [], s, pos => (s, some pos)
  | [.array], s, _ => (s, none)
  | .array :: elem :: ops, s, pos =>
    match readVbr buf 6 pos with
    | none => (s, none)
    | some (length, pos) =>
      if capacity < u32 (s.opCount+length) then (s, none)
      else match storeElems buf elem length s pos with
        | (s, none) => (s, none)
        | (s, some pos) => storeOps ops s pos
  | .blob :: ops, s, pos =>
    match readVbr buf 6 pos with
    | none => (s, none)
    | some (length, pos) =>
      let byteOff := align32 pos/8
      if buf.length < byteOff+length then (s, none)
      else storeOps ops { s with blob := some (ByteMemory.window buf byteOff length) }
        (align32 (align32 pos+8*length))
  | op :: ops, s, pos =>
    match decodeOneValue buf op pos with
    | none => (s, none)
    | some (v, pos) =>
      if s.code.isSome = true ∧ capacity ≤ s.opCount then (s, none)
      else storeOps ops (s.push v) pos

/-- `lagfx_abbrev_decode_record` on the pattern of the entry: its stores, and the record code
and the number of operands that it reports. -/
def storeRecord (ab : Abbrev) (pos : Nat) : RecordStores × Option (Nat × Nat × Nat) :=
  match storeOps buf capacity ab {} pos with
  | (s, none) => (s, none)
  | (s, some stop) => (s, s.code.map fun code => (code, s.opCount, stop))

end

/-- `lagfx_abbrev_decode_record`. -/
def storeAbbrevRecord (buf : List UInt8) (capacity : Nat) (table : List Abbrev)
    (abbrevId pos : Nat) : RecordStores × Option (Nat × Nat × Nat) :=
  if abbrevId < 4 then ({}, none)
  else match table[abbrevId-4]? with
    | none => ({}, none)
    | some ab => storeRecord buf capacity ab pos

/- The record that a stream holds, whatever its size. -/

def recordElems (buf : List UInt8) (elem : AbbrevOp) : Nat → Nat → Option (List Nat × Nat)
  | 0, pos => some ([], pos)
  | n+1, pos => do
    let (v, pos) ← decodeOneValue buf elem pos
    let (vs, pos) ← recordElems buf elem n pos
    some (v::vs, pos)

/-- The values of a record, the code first. -/
def recordValues (buf : List UInt8) : Abbrev → Nat → Option (List Nat × Nat)
  | [], pos => some ([], pos)
  | [.array], _ => none
  | .array :: elem :: ops, pos => do
    let (length, pos) ← readVbr buf 6 pos
    let (vs, pos) ← recordElems buf elem length pos
    let (rest, pos) ← recordValues buf ops pos
    some (vs++rest, pos)
  | .blob :: ops, pos => do
    let (length, pos) ← readVbr buf 6 pos
    if buf.length < align32 pos/8+length then none
    else recordValues buf ops (align32 (align32 pos+8*length))
  | op :: ops, pos => do
    let (v, pos) ← decodeOneValue buf op pos
    let (rest, pos) ← recordValues buf ops pos
    some (v::rest, pos)

/-- No store beyond the buffer, whatever comes of the record; its size is reported within the
capacity; and a record with more operands is rejected. -/
structure StoresInside (buf : List UInt8) (capacity : Nat) (table : List Abbrev)
    (abbrevId pos : Nat) : Prop where
  stores : ∀ s ∈ (storeAbbrevRecord buf capacity table abbrevId pos).1.stores, s.1 < capacity
  reported : ∀ r, (storeAbbrevRecord buf capacity table abbrevId pos).2 = some r →
    r.2.1 ≤ capacity
  rejected : ∀ ab code ops stop, 4 ≤ abbrevId → table[abbrevId-4]? = some ab →
    recordValues buf ab pos = some (code::ops, stop) → capacity < ops.length →
    (storeAbbrevRecord buf capacity table abbrevId pos).2 = none

/-- An array that begins with the code is no longer than the buffer. -/
def CodeArrayFits (buf : List UInt8) (capacity : Nat) (ab : Abbrev) (pos : Nat) : Prop :=
  ∀ before elem after stop length first, ab = before++.array::elem::after →
    recordValues buf before pos = some ([], stop) → readVbr buf 6 stop = some (length, first) →
    length ≤ capacity

/-- With `n` values read, an array whose length takes the operand count past 32 bits: what
stands before it fits the buffer, and the stream has more of its elements than there is room
for. -/
def ArrayWraps (buf : List UInt8) (capacity n : Nat) (ab : Abbrev) (pos : Nat) : Prop :=
  ∃ before elem after vs stop length first,
    ab = before++.array::elem::after ∧ recordValues buf before pos = some (vs, stop) ∧
    n+vs.length ≤ capacity+1 ∧ (n = 0 → CodeArrayFits buf capacity before pos) ∧
    readVbr buf 6 stop = some (length, first) ∧ 2^32 < n+vs.length+length ∧
    (recordElems buf elem (capacity+2-(n+vs.length)) first).isSome = true

/- The stores of a run. -/

namespace RecordStores

/-- The values read, the code among them. -/
def size (s : RecordStores) : Nat := s.code.toList.length+s.stores.length

/-- The stores go to the indices in order, modulo 32 bits. -/
structure Consecutive (s : RecordStores) : Prop where
  count : s.opCount = u32 s.stores.length
  index : s.stores.map Prod.fst = (List.range s.stores.length).map u32
  code : s.code = none → s.stores = []

theorem consecutive_empty : ({} : RecordStores).Consecutive := ⟨rfl, rfl, fun _ => rfl⟩

theorem Consecutive.push {s : RecordStores} (h : s.Consecutive) (v : Nat) :
    (s.push v).Consecutive := by
  cases hcode : s.code with
  | none =>
    have hnil := h.code hcode
    have hcount := h.count
    simp only [RecordStores.push, hcode]
    constructor
    · exact hcount
    · simp [hnil]
    · intro hsome
      cases hsome
  | some code =>
    simp only [RecordStores.push, hcode]
    constructor
    · have hcount := h.count
      simp only [u32, List.length_append, List.length_singleton] at hcount ⊢
      omega
    · simp only [List.map_append, List.map_cons, List.map_nil, List.length_append,
        List.length_singleton, List.range_succ, h.index, h.count]
    · intro hnone
      cases hnone

theorem push_size (s : RecordStores) (v : Nat) : (s.push v).size = s.size+1 := by
  cases hcode : s.code <;> simp [push, size, hcode] <;> omega

theorem size_eq {s : RecordStores} (hcode : s.code.isSome = true) :
    s.size = s.stores.length+1 := by
  obtain ⟨code, hsome⟩ := Option.isSome_iff_exists.1 hcode
  simp [size, hsome, Nat.add_comm]

/-- The count is a word without overflow while the record fits the buffer. -/
theorem Consecutive.count_eq {s : RecordStores} (h : s.Consecutive) {capacity : Nat}
    (hsize : s.size ≤ capacity+1) (hcap : capacity < 2^32) : s.opCount = s.size-1 := by
  have hcount := h.count
  cases hcode : s.code with
  | none =>
    rw [h.code hcode] at hcount
    simp [hcount, size, hcode, h.code hcode, u32]
  | some code =>
    have hlen := size_eq (s := s) (by rw [hcode]; rfl)
    rw [hcount, u32, Nat.mod_eq_of_lt (by omega), hlen, Nat.add_sub_cancel]

/-- The stores are inside the buffer when they are not too many. -/
theorem Consecutive.inside_iff {s : RecordStores} (h : s.Consecutive) {capacity : Nat}
    (hcap : capacity < 2^32) :
    (∀ x ∈ s.stores, x.1 < capacity) ↔ s.stores.length ≤ capacity := by
  have hmap : (∀ x ∈ s.stores, x.1 < capacity) ↔
      ∀ i ∈ s.stores.map Prod.fst, i < capacity := by
    rw [List.forall_mem_map]
  rw [hmap, h.index, List.forall_mem_map]
  constructor
  · intro hall
    by_contra hlen
    have hat := hall capacity (List.mem_range.2 (not_le.1 hlen))
    rw [u32, Nat.mod_eq_of_lt hcap] at hat
    omega
  · intro hlen i hi
    rw [List.mem_range] at hi
    rw [u32, Nat.mod_eq_of_lt (by omega)]
    omega

end RecordStores

open RecordStores

theorem readVbrOf_lt {buf : List UInt8} {limit n pos v stop : Nat} (hlim : 0 < limit)
    (h : readVbrOf limit buf n pos = some (v, stop)) : v < 2^limit := by
  have hread := h
  rw [readVbrOf] at h
  split_ifs at h with hn
  obtain ⟨ds, d, hds, hroom⟩ := vbrLoop_some hn.1 limit (by omega) hlim h
  rw [Nat.zero_add] at hroom
  rw [readVbrOf_chunks hn.1 hn.2 hlim hds, if_pos hroom] at hread
  obtain ⟨rfl, -⟩ := Prod.mk.inj (Option.some.inj hread)
  have hinit : ∀ e ∈ ds, e < 2^(n-1) := fun e he =>
    chunksAt_lt hds e (List.mem_append_left _ he)
  exact (vbrValue_fits hn.1 hinit hroom).2 (Nat.mod_lt _ (Nat.two_pow_pos _))

section
variable {buf : List UInt8} {capacity : Nat}

/-- What a run keeps of the stores before it. -/
structure Grows (s s' : RecordStores) : Prop where
  stores : s.stores.length ≤ s'.stores.length
  consecutive : s.Consecutive → s'.Consecutive
  code : s.code.isSome = true → s'.code.isSome = true

theorem Grows.refl (s : RecordStores) : Grows s s := ⟨le_refl _, id, id⟩

theorem Grows.trans {a b c : RecordStores} (h : Grows a b) (h' : Grows b c) : Grows a c :=
  ⟨h.stores.trans h'.stores, fun hc => h'.consecutive (h.consecutive hc),
    fun hc => h'.code (h.code hc)⟩

theorem push_grows (s : RecordStores) (v : Nat) : Grows s (s.push v) := by
  refine ⟨?_, fun h => h.push v, ?_⟩
  · cases hcode : s.code <;> simp [push, hcode]
  · intro h
    obtain ⟨code, hcode⟩ := Option.isSome_iff_exists.1 h
    simp [push, hcode]

/-- The blob is beside the stores. -/
theorem blob_grows (s : RecordStores) (b : Option (List UInt8)) : Grows s { s with blob := b } :=
  ⟨le_refl _, fun h => ⟨h.count, h.index, h.code⟩, id⟩

theorem storeElems_grows (buf : List UInt8) (elem : AbbrevOp) (n : Nat) (s : RecordStores)
    (pos : Nat) :
    Grows s (storeElems buf elem n s pos).1 := by
  fun_induction storeElems buf elem n s pos with
  | case1 s pos => exact .refl s
  | case2 n s pos hval => exact .refl s
  | case3 n s pos v next hval ih => exact (push_grows s v).trans ih

theorem storeOps_grows (buf : List UInt8) (capacity : Nat) (ab : Abbrev) (s : RecordStores)
    (pos : Nat) :
    Grows s (storeOps buf capacity ab s pos).1 := by
  fun_induction storeOps buf capacity ab s pos with
  | case1 => exact .refl _
  | case2 => exact .refl _
  | case3 => exact .refl _
  | case4 => exact .refl _
  | case5 elem ops s pos length first hlen hcap s' helems =>
    have h := storeElems_grows buf elem length s first
    rwa [helems] at h
  | case6 elem ops s pos length first hlen hcap s' next helems ih =>
    have h := storeElems_grows buf elem length s first
    rw [helems] at h
    exact h.trans ih
  | case7 => exact .refl _
  | case8 => exact .refl _
  | case9 ops s pos length first hlen byteOff hfits ih => exact (blob_grows s _).trans ih
  | case10 => exact .refl _
  | case11 => exact .refl _
  | case12 op ops s pos hnil helem hblob v next hval hroom ih => exact (push_grows s v).trans ih

/- The elements of an array. -/

theorem storeElems_reach {elem : AbbrevOp} {k n pos : Nat} {s : RecordStores}
    (h : (recordElems buf elem k pos).isSome = true) (hk : k ≤ n) (hcode : s.code.isSome = true) :
    s.stores.length+k ≤ (storeElems buf elem n s pos).1.stores.length := by
  induction k generalizing n s pos with
  | zero => exact (storeElems_grows buf elem n s pos).stores
  | succ k ih =>
    obtain ⟨n, rfl⟩ : ∃ m, n = m+1 := ⟨n-1, by omega⟩
    obtain ⟨code, hsome⟩ := Option.isSome_iff_exists.1 hcode
    cases hval : decodeOneValue buf elem pos with
    | none => simp [recordElems, hval] at h
    | some r =>
      obtain ⟨v, next⟩ := r
      have hrest : (recordElems buf elem k next).isSome = true := by
        cases hk : recordElems buf elem k next with
        | none => simp [recordElems, hval, hk] at h
        | some r => rfl
      have hlen : (s.push v).stores.length = s.stores.length+1 := by simp [push, hsome]
      have htail := ih (s := s.push v) hrest (by omega : k ≤ n) ((push_grows s v).code hcode)
      rw [storeElems, hval]
      simp only
      omega

theorem push_stores_le (s : RecordStores) (v : Nat) :
    (s.push v).stores.length ≤ s.stores.length+1 := by
  cases hcode : s.code <;> simp [push, hcode]

theorem storeElems_short {elem : AbbrevOp} {k n pos : Nat} {s : RecordStores}
    (h : recordElems buf elem k pos = none) (hk : k ≤ n) :
    (storeElems buf elem n s pos).2 = none ∧
      (storeElems buf elem n s pos).1.stores.length < s.stores.length+k := by
  induction k generalizing n s pos with
  | zero => cases h
  | succ k ih =>
    obtain ⟨n, rfl⟩ : ∃ m, n = m+1 := ⟨n-1, by omega⟩
    rw [storeElems]
    cases hval : decodeOneValue buf elem pos with
    | none => exact ⟨rfl, by simp⟩
    | some r =>
      obtain ⟨v, next⟩ := r
      have hrest : recordElems buf elem k next = none := by
        cases hk : recordElems buf elem k next with
        | none => rfl
        | some r => simp [recordElems, hval, hk] at h
      have hlen := push_stores_le s v
      obtain ⟨hnone, hlt⟩ := ih (s := s.push v) hrest (by omega : k ≤ n)
      exact ⟨hnone, by simp only; omega⟩

theorem storeElems_le (buf : List UInt8) (elem : AbbrevOp) (n : Nat) (s : RecordStores)
    (pos : Nat) :
    (storeElems buf elem n s pos).1.stores.length ≤ s.stores.length+n := by
  fun_induction storeElems buf elem n s pos with
  | case1 s pos => exact le_refl _
  | case2 n s pos hval => simp
  | case3 n s pos v next hval ih =>
    have hpush := push_stores_le s v
    omega

/-- A whole array is stored just when it is in the stream. -/
theorem storeElems_some (buf : List UInt8) (elem : AbbrevOp) (n : Nat) (s : RecordStores)
    (pos : Nat) :
    (∃ s' next, storeElems buf elem n s pos = (s', some next) ∧ s'.size = s.size+n ∧
      ∃ vs, recordElems buf elem n pos = some (vs, next) ∧ vs.length = n) ∨
    ((storeElems buf elem n s pos).2 = none ∧ recordElems buf elem n pos = none) := by
  induction n generalizing s pos with
  | zero => exact .inl ⟨s, pos, rfl, rfl, [], rfl, rfl⟩
  | succ n ih =>
    rw [storeElems, recordElems]
    cases hval : decodeOneValue buf elem pos with
    | none => exact .inr ⟨rfl, rfl⟩
    | some r =>
      obtain ⟨v, next⟩ := r
      rcases ih (s.push v) next with
        ⟨s', stop, hrun, hsize, vs, hvs, hlen⟩ | ⟨hs, hr⟩
      · refine .inl ⟨s', stop, hrun, ?_, v::vs, ?_, ?_⟩
        · rw [hsize, push_size]
          omega
        · simp [hvs]
        · rw [List.length_cons, hlen]
      · exact .inr ⟨hs, by simp [hr]⟩

/- The entries before an array. -/

theorem decodeOneValue_scalar {op : AbbrevOp} {pos : Nat} {r : Nat × Nat}
    (h : decodeOneValue buf op pos = some r) : op ≠ .array ∧ op ≠ .blob := by
  constructor <;> rintro rfl <;> cases h

theorem storeOps_scalar {op : AbbrevOp} {ops : Abbrev} {s : RecordStores} {pos v next : Nat}
    (h : decodeOneValue buf op pos = some (v, next)) :
    storeOps buf capacity (op::ops) s pos =
      if s.code.isSome = true ∧ capacity ≤ s.opCount then (s, none)
      else storeOps buf capacity ops (s.push v) next := by
  cases op with
  | array => cases h
  | blob => cases h
  | _ => simp only [storeOps, h]

theorem recordValues_scalar {op : AbbrevOp} {ops : Abbrev} {pos v next : Nat}
    (h : decodeOneValue buf op pos = some (v, next)) :
    recordValues buf (op::ops) pos =
      (recordValues buf ops next).map fun r => (v::r.1, r.2) := by
  cases op with
  | array => cases h
  | blob => cases h
  | _ =>
    simp only [recordValues, h, Option.bind_eq_bind, Option.bind_some]
    cases recordValues buf ops next <;> rfl

/-- An array, and a blob, when their reads succeed. -/
theorem storeOps_array {elem : AbbrevOp} {ops : Abbrev} {s s' : RecordStores}
    {pos length first next : Nat} (hlen : readVbr buf 6 pos = some (length, first))
    (hcap : u32 (s.opCount+length) ≤ capacity)
    (helems : storeElems buf elem length s first = (s', some next)) :
    storeOps buf capacity (.array::elem::ops) s pos = storeOps buf capacity ops s' next := by
  simp only [storeOps, hlen, helems, if_neg (not_lt.2 hcap)]

theorem storeOps_blob {ops : Abbrev} {s : RecordStores} {pos length first : Nat}
    (hlen : readVbr buf 6 pos = some (length, first))
    (hfits : ¬buf.length < align32 first/8+length) :
    storeOps buf capacity (.blob::ops) s pos =
      storeOps buf capacity ops
        { s with blob := some (ByteMemory.window buf (align32 first/8) length) }
        (align32 (align32 first+8*length)) := by
  simp only [storeOps, hlen, if_neg hfits]

theorem recordValues_array {elem : AbbrevOp} {ops : Abbrev} {vs : List Nat}
    {pos length first next : Nat} (hlen : readVbr buf 6 pos = some (length, first))
    (hvs : recordElems buf elem length first = some (vs, next)) :
    recordValues buf (.array::elem::ops) pos =
      (recordValues buf ops next).map fun r => (vs++r.1, r.2) := by
  simp only [recordValues, hlen, hvs, Option.bind_eq_bind, Option.bind_some]
  cases recordValues buf ops next <;> rfl

theorem recordValues_blob {ops : Abbrev} {pos length first : Nat}
    (hlen : readVbr buf 6 pos = some (length, first))
    (hfits : ¬buf.length < align32 first/8+length) :
    recordValues buf (.blob::ops) pos =
      recordValues buf ops (align32 (align32 first+8*length)) := by
  simp only [recordValues, hlen, Option.bind_eq_bind, Option.bind_some, if_neg hfits]

/- The condition on the code, entry by entry. -/

theorem codeArrayFits_nil (pos : Nat) : CodeArrayFits buf capacity [] pos := by
  intro before elem after stop length first heq
  simp at heq

theorem codeArrayFits_scalar {op : AbbrevOp} (ops : Abbrev) {pos : Nat} {r : Nat × Nat}
    (h : decodeOneValue buf op pos = some r) : CodeArrayFits buf capacity (op::ops) pos := by
  intro before elem after stop length first heq hvs
  obtain ⟨v, next⟩ := r
  cases before with
  | nil => exact absurd (List.cons.inj heq).1 (decodeOneValue_scalar h).1
  | cons op' before =>
    obtain ⟨rfl, -⟩ := List.cons.inj heq
    rw [recordValues_scalar h, Option.map_eq_some_iff] at hvs
    obtain ⟨r, -, hr⟩ := hvs
    cases hr

theorem codeArrayFits_blob {ops : Abbrev} {pos length first : Nat}
    (hlen : readVbr buf 6 pos = some (length, first))
    (hfits : ¬buf.length < align32 first/8+length) :
    CodeArrayFits buf capacity (.blob::ops) pos ↔
      CodeArrayFits buf capacity ops (align32 (align32 first+8*length)) := by
  constructor
  · intro h before elem after stop n p heq hvs hn
    exact h (.blob::before) elem after stop n p (by rw [heq, List.cons_append])
      (by rw [recordValues_blob hlen hfits, hvs]) hn
  · intro h before elem after stop n p heq hvs hn
    cases before with
    | nil => cases heq
    | cons op before =>
      obtain ⟨rfl, hrest⟩ := List.cons.inj heq
      rw [recordValues_blob hlen hfits] at hvs
      exact h before elem after stop n p hrest hvs hn

theorem codeArrayFits_array {elem : AbbrevOp} {ops : Abbrev} {es : List Nat}
    {pos length first next : Nat} (hlen : readVbr buf 6 pos = some (length, first))
    (hes : recordElems buf elem length first = some (es, next)) :
    CodeArrayFits buf capacity (.array::elem::ops) pos ↔
      length ≤ capacity ∧ (es = [] → CodeArrayFits buf capacity ops next) := by
  constructor
  · intro h
    refine ⟨h [] elem ops pos length first rfl rfl hlen, ?_⟩
    rintro rfl before elem' after stop n p heq hvs hn
    refine h (.array::elem::before) elem' after stop n p ?_ ?_ hn
    · rw [heq, List.cons_append, List.cons_append]
    · rw [recordValues_array hlen hes, hvs]
      rfl
  · rintro ⟨hcap, h⟩ before elem' after stop n p heq hvs hn
    rcases before with - | ⟨op, - | ⟨op', before⟩⟩
    · cases hvs
      obtain ⟨rfl, -⟩ := Prod.mk.inj (Option.some.inj (hlen.symm.trans hn))
      exact hcap
    · obtain ⟨hop, -⟩ := List.cons.inj heq
      rw [← hop] at hvs
      cases hvs
    · obtain ⟨hop, htail⟩ := List.cons.inj heq
      obtain ⟨hop', hrest⟩ := List.cons.inj htail
      rw [← hop, ← hop', recordValues_array hlen hes, Option.map_eq_some_iff] at hvs
      obtain ⟨⟨ws, q⟩, hws, hr⟩ := hvs
      obtain ⟨hnil, rfl⟩ := Prod.mk.inj hr
      obtain ⟨rfl, rfl⟩ := List.append_eq_nil_iff.1 hnil
      exact h rfl before elem' after _ n p hrest hws hn

/-- Entries whose values fit the buffer are stored, and the run goes on behind them. -/
theorem storeOps_prefix (hcap : capacity < 2^32) (before : Abbrev) (pos : Nat) {vs : List Nat}
    {stop : Nat} {s : RecordStores} (hs : s.Consecutive)
    (hvs : recordValues buf before pos = some (vs, stop)) (hfit : s.size+vs.length ≤ capacity+1)
    (hcode : s.size = 0 → CodeArrayFits buf capacity before pos) :
    ∃ s' : RecordStores, s'.Consecutive ∧ s'.size = s.size+vs.length ∧
      ∀ ops, storeOps buf capacity (before++ops) s pos = storeOps buf capacity ops s' stop := by
  induction before, pos using recordValues.induct generalizing vs s with
  | case1 pos =>
    cases hvs
    exact ⟨s, hs, rfl, fun ops => rfl⟩
  | case2 => cases hvs
  | case3 elem rest pos ih =>
    simp only [recordValues, Option.bind_eq_bind] at hvs
    obtain ⟨⟨length, first⟩, hlen, hvs⟩ := Option.bind_eq_some_iff.1 hvs
    obtain ⟨⟨es, next⟩, hes, hvs⟩ := Option.bind_eq_some_iff.1 hvs
    obtain ⟨⟨ws, stop'⟩, hws, hvs⟩ := Option.bind_eq_some_iff.1 hvs
    simp only [Option.some.injEq, Prod.mk.injEq] at hvs
    obtain ⟨rfl, rfl⟩ := hvs
    rw [codeArrayFits_array hlen hes] at hcode
    rcases storeElems_some buf elem length s first with
      ⟨s₁, next', hrun, hsize, es', hes', hnum⟩ | ⟨-, hno⟩
    · obtain ⟨rfl, rfl⟩ := Prod.mk.inj (Option.some.inj (hes.symm.trans hes'))
      have hcons : s₁.Consecutive := by
        have hgrow := storeElems_grows buf elem length s first
        rw [hrun] at hgrow
        exact hgrow.consecutive hs
      rw [List.length_append] at hfit
      have hcount := hs.count_eq (by omega) hcap
      have htest : u32 (s.opCount+length) ≤ capacity := by
        have hsum : s.opCount+length ≤ capacity := by
          by_cases hzero : s.size = 0
          · have hfirst := (hcode hzero).1
            omega
          · omega
        rw [u32, Nat.mod_eq_of_lt (by omega)]
        exact hsum
      obtain ⟨s', hs', hsize', hgo⟩ := ih next hcons hws (by omega) (by
        intro hzero
        exact (hcode (by omega)).2 (List.length_eq_zero_iff.1 (by omega)))
      refine ⟨s', hs', by rw [hsize', hsize, List.length_append]; omega, fun ops => ?_⟩
      rw [List.cons_append, List.cons_append, storeOps_array hlen htest hrun, hgo]
    · cases hes.symm.trans hno
  | case4 rest pos ih =>
    simp only [recordValues, Option.bind_eq_bind] at hvs
    obtain ⟨⟨length, first⟩, hlen, hvs⟩ := Option.bind_eq_some_iff.1 hvs
    simp only at hvs
    split_ifs at hvs with hfits
    rw [codeArrayFits_blob hlen hfits] at hcode
    obtain ⟨s', hs', hsize', hgo⟩ :=
      ih length first ((blob_grows s (some (ByteMemory.window buf (align32 first/8)
        length))).consecutive hs) hvs hfit hcode
    refine ⟨s', hs', hsize', fun ops => ?_⟩
    rw [List.cons_append, storeOps_blob hlen hfits, hgo]
  | case5 op rest pos hnil helem hblob ih =>
    simp only [recordValues, Option.bind_eq_bind] at hvs
    obtain ⟨⟨v, next⟩, hval, hvs⟩ := Option.bind_eq_some_iff.1 hvs
    obtain ⟨⟨ws, stop'⟩, hws, hvs⟩ := Option.bind_eq_some_iff.1 hvs
    simp only [Option.some.injEq, Prod.mk.injEq] at hvs
    obtain ⟨rfl, rfl⟩ := hvs
    rw [List.length_cons] at hfit
    have hcount := hs.count_eq (by omega) hcap
    obtain ⟨s', hs', hsize', hgo⟩ := ih next (s := s.push v) (hs.push v) hws
      (by rw [push_size]; omega) (by rw [push_size]; omega)
    refine ⟨s', hs', by rw [hsize', push_size, List.length_cons]; omega, fun ops => ?_⟩
    rw [List.cons_append, storeOps_scalar hval, if_neg, hgo]
    rintro ⟨hsome, hfull⟩
    have hsize := size_eq hsome
    omega

/-- An array that wraps the count takes the stores beyond the buffer. -/
theorem arrayWraps_outside (hcap : capacity < 2^32) {ab : Abbrev} {pos : Nat}
    (h : ArrayWraps buf capacity 0 ab pos) :
    capacity < (storeOps buf capacity ab {} pos).1.stores.length := by
  obtain ⟨before, elem, after, vs, stop, length, first, rfl, hvs, hfit, hcode, hlen, hwrap,
    helems⟩ := h
  rw [Nat.zero_add] at hfit hwrap helems
  obtain ⟨s, hs, hsize, hgo⟩ := storeOps_prefix hcap before pos consecutive_empty hvs
    (by rwa [show ({} : RecordStores).size = 0 from rfl, Nat.zero_add]) (fun _ => hcode rfl)
  rw [show ({} : RecordStores).size = 0 from rfl, Nat.zero_add] at hsize
  rw [hgo]
  have hword := readVbrOf_lt (by decide) hlen
  have hcount := hs.count_eq (by omega) hcap
  have hsome : s.code.isSome = true := by
    cases hcode : s.code with
    | some code => rfl
    | none =>
      have hzero : s.size = 0 := by simp [size, hcode, hs.code hcode]
      omega
  have hstores := size_eq hsome
  -- the 32-bit sum is below the count, and the count within the buffer
  have htest : u32 (s.opCount+length) ≤ capacity := by
    have hsum : s.opCount+length = (s.opCount+length-2^32)+2^32 := by omega
    rw [u32, hsum, Nat.add_mod_right, Nat.mod_eq_of_lt (by omega)]
    omega
  have hreach := storeElems_reach helems (n := length) (by omega) hsome
  simp only [storeOps, hlen, if_neg (not_lt.2 htest)]
  split
  · rename_i s₁ hrun
    rw [hrun] at hreach
    simp only at hreach ⊢
    omega
  · rename_i s₁ next hrun
    rw [hrun] at hreach
    have hgrow := (storeOps_grows buf capacity after s₁ next).stores
    simp only at hreach ⊢
    omega

/- Wraps behind an entry that passes. -/

theorem ArrayWraps.scalar {op : AbbrevOp} {ops : Abbrev} {n pos v next : Nat}
    (hval : decodeOneValue buf op pos = some (v, next))
    (h : ArrayWraps buf capacity (n+1) ops next) : ArrayWraps buf capacity n (op::ops) pos := by
  obtain ⟨before, elem, after, vs, stop, length, first, rfl, hvs, hfit, -, hlen, hwrap,
    helems⟩ := h
  have hnum : n+1+vs.length = n+(v::vs).length := by
    rw [List.length_cons]
    omega
  rw [hnum] at hfit hwrap helems
  refine ⟨op::before, elem, after, v::vs, stop, length, first, rfl, ?_, hfit, ?_, hlen, hwrap,
    helems⟩
  · rw [recordValues_scalar hval, hvs]
    rfl
  · exact fun _ => codeArrayFits_scalar before hval

theorem ArrayWraps.blob {ops : Abbrev} {n pos length first : Nat}
    (hlen : readVbr buf 6 pos = some (length, first))
    (hfits : ¬buf.length < align32 first/8+length)
    (h : ArrayWraps buf capacity n ops (align32 (align32 first+8*length))) :
    ArrayWraps buf capacity n (.blob::ops) pos := by
  obtain ⟨before, elem, after, vs, stop, k, q, rfl, hvs, hfit, hcode, hk, hwrap, helems⟩ := h
  refine ⟨.blob::before, elem, after, vs, stop, k, q, rfl, ?_, hfit, ?_, hk, hwrap, helems⟩
  · rw [recordValues_blob hlen hfits, hvs]
  · exact fun hn => (codeArrayFits_blob hlen hfits).2 (hcode hn)

theorem ArrayWraps.array {elem : AbbrevOp} {ops : Abbrev} {es : List Nat}
    {n pos length first next : Nat} (hlen : readVbr buf 6 pos = some (length, first))
    (hes : recordElems buf elem length first = some (es, next))
    (hcap : n = 0 → length ≤ capacity)
    (h : ArrayWraps buf capacity (n+es.length) ops next) :
    ArrayWraps buf capacity n (.array::elem::ops) pos := by
  obtain ⟨before, elem', after, vs, stop, k, q, rfl, hvs, hfit, hcode, hk, hwrap, helems⟩ := h
  rw [Nat.add_assoc, ← List.length_append] at hfit helems
  rw [Nat.add_assoc n, ← List.length_append] at hwrap
  refine ⟨.array::elem::before, elem', after, es++vs, stop, k, q, rfl, ?_, hfit, ?_, hk, hwrap,
    helems⟩
  · rw [recordValues_array hlen hes, hvs]
    rfl
  · intro hn
    refine (codeArrayFits_array hlen hes).2 ⟨hcap hn, ?_⟩
    rintro rfl
    exact hcode hn

/-- An array at which a run stands does not wrap. -/
theorem first_no_wrap {elem : AbbrevOp} {ops : Abbrev} {s : RecordStores} {pos length first : Nat}
    (hs : s.Consecutive) (hstores : s.stores.length ≤ capacity)
    (hlen : readVbr buf 6 pos = some (length, first))
    (h : ¬ArrayWraps buf capacity s.size (.array::elem::ops) pos) (hwrap : 2^32 < s.size+length) :
    recordElems buf elem (capacity+2-s.size) first = none := by
  by_contra hsome
  refine h ⟨[], elem, ops, [], pos, length, first, rfl, rfl, ?_, fun _ => codeArrayFits_nil pos,
    hlen, by simpa using hwrap, by simpa using Option.isSome_iff_ne_none.2 hsome⟩
  cases hcode : s.code with
  | none => simp [size, hcode, hs.code hcode]
  | some code =>
    have hsize := size_eq (s := s) (by rw [hcode]; rfl)
    rw [List.length_nil]
    omega

/-- The elements of an array that passes the test stay inside unless it wraps. -/
theorem storeElems_inside (hcap : capacity < 2^32) {elem : AbbrevOp} {s : RecordStores}
    {length first : Nat} (hs : s.Consecutive) (hstores : s.stores.length ≤ capacity)
    (hword : length < 2^32) (htest : ¬capacity < u32 (s.opCount+length))
    (h : 2^32 < s.size+length → recordElems buf elem (capacity+2-s.size) first = none) :
    (storeElems buf elem length s first).1.stores.length ≤ capacity ∧
      ∀ next, (storeElems buf elem length s first).2 = some next →
        s.opCount+length ≤ capacity := by
  have hcount : s.opCount = s.stores.length := by
    rw [hs.count, u32, Nat.mod_eq_of_lt (by omega)]
  by_cases hsum : s.opCount+length < 2^32
  · rw [u32, Nat.mod_eq_of_lt hsum] at htest
    have hle := storeElems_le buf elem length s first
    exact ⟨by omega, fun _ _ => by omega⟩
  · have hsome : s.code.isSome = true := by
      cases hcode : s.code with
      | some code => rfl
      | none =>
        rw [hs.code hcode, List.length_nil] at hcount
        omega
    have hsize := size_eq hsome
    obtain ⟨hnone, hlt⟩ := storeElems_short (s := s) (h (by omega)) (by omega : _ ≤ length)
    refine ⟨by omega, fun next hnext => ?_⟩
    rw [hnone] at hnext
    cases hnext

/-- A run that wraps at no array keeps its stores inside, and stores the values of the
record. -/
theorem storeOps_inside (hcap : capacity < 2^32) {ab : Abbrev} {s : RecordStores} {pos : Nat}
    (hs : s.Consecutive) (hstores : s.stores.length ≤ capacity)
    (h : ¬ArrayWraps buf capacity s.size ab pos) :
    (storeOps buf capacity ab s pos).1.stores.length ≤ capacity ∧
      ∀ stop, (storeOps buf capacity ab s pos).2 = some stop →
        ∃ vs, recordValues buf ab pos = some (vs, stop) ∧
          (storeOps buf capacity ab s pos).1.size = s.size+vs.length := by
  fun_induction storeOps buf capacity ab s pos with
  | case1 s pos =>
    refine ⟨hstores, fun stop hstop => ⟨[], ?_, rfl⟩⟩
    cases hstop
    rfl
  | case2 => exact ⟨hstores, fun stop hstop => by cases hstop⟩
  | case3 => exact ⟨hstores, fun stop hstop => by cases hstop⟩
  | case4 => exact ⟨hstores, fun stop hstop => by cases hstop⟩
  | case5 elem ops s pos length first hlen htest s' hrun =>
    have hfirst := first_no_wrap hs hstores hlen h
    have hin := storeElems_inside hcap hs hstores (readVbrOf_lt (by decide) hlen) htest hfirst
    rw [hrun] at hin
    exact ⟨hin.1, fun stop hstop => by cases hstop⟩
  | case6 elem ops s pos length first hlen htest s' next hrun ih =>
    have hfirst := first_no_wrap hs hstores hlen h
    have hin := storeElems_inside hcap hs hstores (readVbrOf_lt (by decide) hlen) htest hfirst
    have hgrow := storeElems_grows buf elem length s first
    rw [hrun] at hin hgrow
    have hsum := hin.2 next rfl
    rcases storeElems_some buf elem length s first with
      ⟨s₁, next', hrun', hsize, es, hes, hnum⟩ | ⟨hno, -⟩
    · rw [hrun] at hrun'
      obtain ⟨rfl, hnext⟩ := Prod.mk.inj hrun'
      obtain rfl := Option.some.inj hnext
      have hrest : ¬ArrayWraps buf capacity s'.size ops next := by
        rw [hsize, ← hnum]
        exact fun hwrap => h (hwrap.array hlen hes fun _ => by omega)
      obtain ⟨hle, hvals⟩ := ih (hgrow.consecutive hs) hin.1 hrest
      refine ⟨hle, fun stop hstop => ?_⟩
      obtain ⟨vs, hvs, hlast⟩ := hvals stop hstop
      refine ⟨es++vs, ?_, ?_⟩
      · rw [recordValues_array hlen hes, hvs]
        rfl
      · rw [hlast, hsize, List.length_append]
        omega
    · rw [hrun] at hno
      cases hno
  | case7 => exact ⟨hstores, fun stop hstop => by cases hstop⟩
  | case8 => exact ⟨hstores, fun stop hstop => by cases hstop⟩
  | case9 ops s pos length first hlen byteOff hfits ih =>
    have hgrow := blob_grows s (some (ByteMemory.window buf byteOff length))
    obtain ⟨hle, hvals⟩ := ih (hgrow.consecutive hs) hstores
      fun hwrap => h (hwrap.blob hlen hfits)
    refine ⟨hle, fun stop hstop => ?_⟩
    rw [recordValues_blob hlen hfits]
    exact hvals stop hstop
  | case10 => exact ⟨hstores, fun stop hstop => by cases hstop⟩
  | case11 => exact ⟨hstores, fun stop hstop => by cases hstop⟩
  | case12 op ops s pos hnil helem hblob v next hval hroom ih =>
    have hcount : s.opCount = s.stores.length := by
      rw [hs.count, u32, Nat.mod_eq_of_lt (by omega)]
    have hpush : (s.push v).stores.length ≤ capacity := by
      cases hcode : s.code with
      | none => simpa [push, hcode] using hstores
      | some code =>
        have hspace := mt (And.intro (by rw [hcode]; rfl)) hroom
        simp [push, hcode]
        omega
    have hrest : ¬ArrayWraps buf capacity (s.push v).size ops next := by
      rw [push_size]
      exact fun hwrap => h (hwrap.scalar hval)
    obtain ⟨hle, hvals⟩ := ih (hs.push v) hpush hrest
    refine ⟨hle, fun stop hstop => ?_⟩
    obtain ⟨vs, hvs, hlast⟩ := hvals stop hstop
    refine ⟨v::vs, ?_, ?_⟩
    · rw [recordValues_scalar hval, hvs]
      rfl
    · rw [hlast, push_size, List.length_cons]
      omega

/-- The stores of a record are those of the run over its pattern. -/
theorem storeAbbrevRecord_eq (buf : List UInt8) (capacity pos : Nat) {table : List Abbrev}
    {abbrevId : Nat} {ab : Abbrev}
    (hid : 4 ≤ abbrevId) (hab : table[abbrevId-4]? = some ab) :
    storeAbbrevRecord buf capacity table abbrevId pos =
      ((storeOps buf capacity ab {} pos).1, (storeOps buf capacity ab {} pos).2.bind fun stop =>
        (storeOps buf capacity ab {} pos).1.code.map fun code =>
          (code, (storeOps buf capacity ab {} pos).1.opCount, stop)) := by
  rw [storeAbbrevRecord, if_neg (by omega), hab]
  simp only [storeRecord]
  split
  · rename_i s hrun
    rw [hrun]
    rfl
  · rename_i s stop hrun
    rw [hrun]
    rfl

theorem storesInside_of_none {table : List Abbrev} {abbrevId pos : Nat}
    (h : storeAbbrevRecord buf capacity table abbrevId pos = ({}, none)) :
    StoresInside buf capacity table abbrevId pos := by
  refine ⟨?_, ?_, ?_⟩
  · intro s hs
    rw [h] at hs
    cases hs
  · intro r hr
    rw [h] at hr
    cases hr
  · intro ab code ops stop _ _ _ _
    rw [h]

theorem storesInside_iff_of_entry (hcap : capacity < 2^32) {table : List Abbrev}
    {abbrevId pos : Nat} {ab : Abbrev} (hid : 4 ≤ abbrevId)
    (hab : table[abbrevId-4]? = some ab) :
    StoresInside buf capacity table abbrevId pos ↔ ¬ArrayWraps buf capacity 0 ab pos := by
  have hrun := storeAbbrevRecord_eq buf capacity pos hid hab
  have hs := (storeOps_grows buf capacity ab {} pos).consecutive
    consecutive_empty
  constructor
  · intro h hwrap
    have hout := arrayWraps_outside hcap hwrap
    have hstores := h.stores
    rw [hrun, hs.inside_iff hcap] at hstores
    omega
  · intro h
    obtain ⟨hle, hvals⟩ := storeOps_inside hcap consecutive_empty (Nat.zero_le _) h
    refine ⟨?_, ?_, ?_⟩
    · rw [hrun]
      exact (hs.inside_iff hcap).2 hle
    · intro r hr
      rw [hrun] at hr
      obtain ⟨stop, -, hr⟩ := Option.bind_eq_some_iff.1 hr
      obtain ⟨code, -, rfl⟩ := Option.map_eq_some_iff.1 hr
      simp only
      rw [hs.count, u32, Nat.mod_eq_of_lt (by omega)]
      exact hle
    · intro ab' code ops stop _ hab' hvs hlong
      obtain rfl := Option.some.inj (hab.symm.trans hab')
      rw [hrun]
      cases hstop : (storeOps buf capacity ab {} pos).2 with
      | none => rfl
      | some stop' =>
        obtain ⟨vs, hvs', hsize⟩ := hvals stop' hstop
        obtain ⟨rfl, -⟩ := Prod.mk.inj (Option.some.inj (hvs.symm.trans hvs'))
        have hnum : (storeOps buf capacity ab {} pos).1.size ≤
            (storeOps buf capacity ab {} pos).1.stores.length+1 := by
          rw [size]
          cases (storeOps buf capacity ab {} pos).1.code <;> simp [Nat.add_comm]
        rw [hsize, List.length_cons] at hnum
        omega

end

/-- The decoder stores inside the operand buffer just where no array of the pattern wraps. -/
theorem abbrev_stores_inside_iff (buf : List UInt8) (capacity : UInt32) (table : List Abbrev)
    (abbrevId pos : Nat) :
    StoresInside buf capacity.toNat table abbrevId pos ↔
      ∀ ab, 4 ≤ abbrevId → table[abbrevId-4]? = some ab →
        ¬ArrayWraps buf capacity.toNat 0 ab pos := by
  by_cases hid : 4 ≤ abbrevId
  · cases hab : table[abbrevId-4]? with
    | none =>
      have hnone : StoresInside buf capacity.toNat table abbrevId pos := storesInside_of_none (by
        rw [storeAbbrevRecord, if_neg (by omega), hab])
      exact ⟨fun _ ab _ h => (by cases h), fun _ => hnone⟩
    | some ab =>
      rw [storesInside_iff_of_entry capacity.toNat_lt hid hab]
      constructor
      · intro h ab' _ hab'
        rwa [← Option.some.inj hab']
      · exact fun h => h ab hid rfl
  · have hnone : StoresInside buf capacity.toNat table abbrevId pos := storesInside_of_none (by
      rw [storeAbbrevRecord, if_pos (by omega)])
    exact ⟨fun _ ab h => absurd h hid, fun _ => hnone⟩

/-- Elements of width zero are in every stream. -/
theorem recordElems_zero_width (buf : List UInt8) (n pos : Nat) :
    (recordElems buf (.fixed 0) n pos).isSome = true := by
  induction n with
  | zero => rfl
  | succ n ih =>
    obtain ⟨r, hr⟩ := Option.isSome_iff_exists.1 ih
    simp [recordElems, decodeOneValue, hr]

/-- A length of `2^32-1` behind one operand: elements of width zero are stored without end. -/
theorem zero_width_array_outside :
    ¬StoresInside [255, 255, 255, 255, 63, 0] 1024
      [[.literal 1, .literal 7, .array, .fixed 0]] 4 0 := by
  rw [storesInside_iff_of_entry (by decide) (by decide) rfl, not_not]
  have hds : ChunksAt [255, 255, 255, 255, 63, 0] 6 ([31, 31, 31, 31, 31, 31]++[3]) 0 := by
    refine ⟨?_, ?_, ?_, ?_, ?_, ?_, ?_, ?_, ?_, ?_, ?_, ?_, ?_, ?_⟩ <;> decide
  have hlen : readVbr [255, 255, 255, 255, 63, 0] 6 0 = some (2^32-1, 42) :=
    readVbrOf_chunks (by decide) (by decide) (by decide) hds
  exact ⟨[.literal 1, .literal 7], .fixed 0, [], [1, 7], 0, 2^32-1, 42, rfl, rfl, by decide,
    fun _ => codeArrayFits_scalar _ rfl, hlen, by decide, recordElems_zero_width ..⟩

/- The decoder of the walks, whose operands are a list, has the same runs while the stores stay
   inside its buffer. -/

/-- The operands are the values stored. -/
structure RecordStores.Holds (s : RecordStores) (r : PartialRecord) : Prop where
  code : r.code = s.code
  ops : r.ops = s.stores.map Prod.snd
  blob : r.blob = s.blob

theorem RecordStores.Holds.push {s : RecordStores} {r : PartialRecord} (h : s.Holds r) (v : Nat) :
    (s.push v).Holds (r.push v) := by
  obtain ⟨code, ops, blob⟩ := r
  obtain ⟨rfl, rfl, rfl⟩ := h
  cases hcode : s.code <;> constructor <;>
    simp [RecordStores.push, PartialRecord.push, hcode]

/-- Two runs end alike. -/
def SameEnd (run : RecordStores × Option Nat) (r : Option (PartialRecord × Nat)) : Prop :=
  match run, r with
  | (s, some stop), some (r, stop') => stop = stop' ∧ s.Holds r
  | (_, none), none => True
  | _, _ => False

section
variable {buf : List UInt8}

theorem storeElems_sameEnd (buf : List UInt8) (elem : AbbrevOp) (n : Nat) {s : RecordStores}
    {r : PartialRecord} (pos : Nat) (h : s.Holds r) :
    SameEnd (storeElems buf elem n s pos) (decodeElems buf elem n r pos) := by
  induction n generalizing s r pos with
  | zero => exact ⟨rfl, h⟩
  | succ n ih =>
    rw [storeElems, decodeElems]
    cases hval : decodeOneValue buf elem pos with
    | none => trivial
    | some v => exact ih v.2 (h.push v.1)

theorem RecordStores.Holds.count {s : RecordStores} {r : PartialRecord} (h : s.Holds r)
    (hs : s.Consecutive) (hin : s.stores.length ≤ recordMaxOps) : s.opCount = r.ops.length := by
  have hmax : recordMaxOps < 2^32 := by decide
  rw [hs.count, h.ops, List.length_map, u32, Nat.mod_eq_of_lt (by omega)]

theorem storeOps_sameEnd (ab : Abbrev) {s : RecordStores} {r : PartialRecord} (pos : Nat)
    (hs : s.Consecutive) (h : s.Holds r)
    (hin : (storeOps buf recordMaxOps ab s pos).1.stores.length ≤ recordMaxOps) :
    SameEnd (storeOps buf recordMaxOps ab s pos) (decodeOps buf ab r pos) := by
  have hcount := h.count hs (le_trans (storeOps_grows buf recordMaxOps ab s pos).stores hin)
  induction ab, pos using recordValues.induct generalizing s r with
  | case1 => exact ⟨rfl, h⟩
  | case2 => trivial
  | case3 elem ops pos ih =>
    simp only [storeOps] at hin ⊢
    simp only [decodeOps, Option.bind_eq_bind]
    cases hlen : readVbr buf 6 pos with
    | none => trivial
    | some l =>
      simp only [hlen, hcount, Option.bind_some] at hin ⊢
      split_ifs at hin ⊢ with htest
      · trivial
      · have hend := storeElems_sameEnd buf elem l.1 l.2 h
        have hgrow := storeElems_grows buf elem l.1 s l.2
        generalize storeElems buf elem l.1 s l.2 = run at hend hgrow hin ⊢
        obtain ⟨s', next⟩ := run
        cases next with
        | none =>
          cases helems : decodeElems buf elem l.1 r l.2 with
          | none => trivial
          | some r' =>
            rw [helems] at hend
            cases hend
        | some next =>
          cases helems : decodeElems buf elem l.1 r l.2 with
          | none =>
            rw [helems] at hend
            cases hend
          | some r' =>
            rw [helems] at hend
            obtain ⟨rfl, hholds⟩ := hend
            have hs' := hgrow.consecutive hs
            exact ih r'.2 hs' hholds hin
              (hholds.count hs' (le_trans (storeOps_grows buf recordMaxOps ops s' r'.2).stores hin))
  | case4 ops pos ih =>
    simp only [storeOps] at hin ⊢
    simp only [decodeOps, Option.bind_eq_bind]
    cases hlen : readVbr buf 6 pos with
    | none => trivial
    | some l =>
      simp only [hlen, Option.bind_some] at hin ⊢
      split_ifs at hin ⊢ with hfits
      · trivial
      · exact ih l.1 l.2 ((blob_grows s _).consecutive hs) ⟨h.code, h.ops, rfl⟩ hin hcount
  | case5 op ops pos hnil helem hblob ih =>
    cases hval : decodeOneValue buf op pos with
    | none =>
      simp only [storeOps, decodeOps, hval, Option.bind_eq_bind, Option.bind_none]
      trivial
    | some v =>
      simp only [storeOps, hval] at hin ⊢
      simp only [decodeOps, hval, Option.bind_eq_bind, Option.bind_some, h.code]
      rw [hcount] at hin ⊢
      split_ifs at hin ⊢ with hroom
      · trivial
      · have hs' := hs.push v.1
        have hholds := h.push v.1
        exact ih v.2 hs' hholds hin
          (hholds.count hs' (le_trans (storeOps_grows _ _ ops (s.push v.1) v.2).stores hin))

/-- While its stores stay inside, the record decoded is the code and the values stored. -/
theorem abbrevDecodeRecord_of_stores {table : List Abbrev} {abbrevId pos : Nat}
    (h : StoresInside buf recordMaxOps table abbrevId pos) :
    abbrevDecodeRecord buf table abbrevId pos =
      (storeAbbrevRecord buf recordMaxOps table abbrevId pos).2.map fun r =>
        let s := (storeAbbrevRecord buf recordMaxOps table abbrevId pos).1
        (⟨r.1, s.stores.map Prod.snd, s.blob⟩, r.2.2) := by
  rw [abbrevDecodeRecord]
  split_ifs with hid
  · rw [storeAbbrevRecord, if_pos hid]
    rfl
  · cases hab : table[abbrevId-4]? with
    | none =>
      rw [storeAbbrevRecord, if_neg hid, hab]
      rfl
    | some ab =>
      have hs := (storeOps_grows buf recordMaxOps ab {} pos).consecutive
        consecutive_empty
      have hrun := storeAbbrevRecord_eq buf recordMaxOps pos (not_lt.1 hid) hab
      have hin := h.stores
      rw [hrun, hs.inside_iff (by decide)] at hin
      have hend := storeOps_sameEnd ab pos consecutive_empty (r := {}) ⟨rfl, rfl, rfl⟩ hin
      rw [hrun]
      generalize storeOps buf recordMaxOps ab {} pos = run at hend ⊢
      obtain ⟨s, stop⟩ := run
      simp only [Option.bind_eq_bind, Option.bind_some]
      cases stop with
      | none =>
        cases hdec : decodeOps buf ab {} pos with
        | none => rfl
        | some r =>
          rw [hdec] at hend
          cases hend
      | some stop =>
        cases hdec : decodeOps buf ab {} pos with
        | none =>
          rw [hdec] at hend
          cases hend
        | some r =>
          rw [hdec] at hend
          obtain ⟨rfl, hcode, hops, hblob⟩ := hend
          simp only [Option.bind_some, hcode, hops, hblob]
          cases s.code <;> rfl

end

end Lagfx
