import Lagfx.Bitstream

/-! The cursor of the bitstream reader after a read that fails, and how far any read takes
it. -/
namespace Lagfx
open ByteMemory Bits

/- `limit` chunks are more than the loop reads. -/
def vbrStop (buf : List UInt8) (n limit : Nat) : Nat → Nat → Nat → Nat
  | 0, _, pos => pos
  | fuel+1, shift, pos =>
    match readBits buf n pos with
    | none => pos
    | some (chunk, pos) =>
      if chunk.testBit (n-1) = false then pos
      else if limit ≤ shift+(n-1) then pos
      else vbrStop buf n limit fuel (shift+(n-1)) pos

def readVbrStop (buf : List UInt8) (n pos : Nat) : Nat :=
  if 2 ≤ n ∧ n ≤ 32 then vbrStop buf n 32 33 0 pos else pos

def readVbr64Stop (buf : List UInt8) (n pos : Nat) : Nat :=
  if 2 ≤ n ∧ n ≤ 32 then vbrStop buf n 64 65 0 pos else pos

def abbrevOpStop (buf : List UInt8) (pos : Nat) : Nat :=
  match readBits buf 1 pos with
  | none => pos
  | some (isLiteral, pos) =>
    if isLiteral ≠ 0 then readVbr64Stop buf 8 pos
    else match readBits buf 3 pos with
      | none => pos
      | some (encoding, pos) =>
        if encoding = 1 ∨ encoding = 2 then readVbrStop buf 5 pos else pos

def abbrevOpsStop (buf : List UInt8) : Nat → Nat → Nat
  | 0, pos => pos
  | n+1, pos =>
    match readAbbrevOp buf pos with
    | none => abbrevOpStop buf pos
    | some (_, pos) => abbrevOpsStop buf n pos

def abbrevDefineStop (buf : List UInt8) (table : List Abbrev) (pos : Nat) : Nat :=
  if abbrevMaxPerBlock ≤ table.length then pos
  else match readVbr buf 5 pos with
    | none => readVbrStop buf 5 pos
    | some (numOps, pos) =>
      if numOps = 0 ∨ abbrevMaxOps < numOps then pos else abbrevOpsStop buf numOps pos

def oneValueStop (buf : List UInt8) (op : AbbrevOp) (pos : Nat) : Nat :=
  match op with
  | .fixed w =>
    if w ≤ 32 then pos
    else match readBits buf 32 pos with
      | none => pos
      | some (_, pos) => pos
  | .vbr w => readVbr64Stop buf w pos
  | _ => pos

def elemsStop (buf : List UInt8) (elem : AbbrevOp) : Nat → Nat → Nat
  | 0, pos => pos
  | n+1, pos =>
    match decodeOneValue buf elem pos with
    | none => oneValueStop buf elem pos
    | some (_, pos) => elemsStop buf elem n pos

def opsStop (buf : List UInt8) : Abbrev → PartialRecord → Nat → Nat
  | [], _, pos => pos
  | [.array], _, pos => pos
  | .array :: elem :: ops, r, pos =>
    match readVbr buf 6 pos with
    | none => readVbrStop buf 6 pos
    | some (length, pos) =>
      if recordMaxOps < u32 (r.ops.length+length) then pos
      else match decodeElems buf elem length r pos with
        | none => elemsStop buf elem length pos
        | some (r, pos) => opsStop buf ops r pos
  | .blob :: ops, r, pos =>
    match readVbr buf 6 pos with
    | none => readVbrStop buf 6 pos
    | some (length, pos) =>
      let byteOff := align32 pos/8
      if buf.length < byteOff+length then align32 pos
      else opsStop buf ops { r with blob := some (window buf byteOff length) }
        (align32 (align32 pos+8*length))
  | op :: ops, r, pos =>
    match decodeOneValue buf op pos with
    | none => oneValueStop buf op pos
    | some (v, pos) =>
      if r.code.isSome ∧ recordMaxOps ≤ r.ops.length then pos
      else opsStop buf ops (r.push v) pos

def decodeRecordStop (buf : List UInt8) (table : List Abbrev) (abbrevId pos : Nat) : Nat :=
  if abbrevId < 4 then pos
  else match table[abbrevId-4]? with
    | none => pos
    | some ab => opsStop buf ab {} pos

def readOpsStop (buf : List UInt8) : Nat → Nat → Nat
  | 0, pos => pos
  | n+1, pos =>
    match readVbr64 buf 6 pos with
    | none => readVbr64Stop buf 6 pos
    | some (_, pos) => readOpsStop buf n pos

/-- A code that could be read is left behind, whatever fails after it. -/
def nextRecordStop (buf : List UInt8) (blk : BsBlock) (pos : Nat) : Nat :=
  match readBits buf blk.abbrevWidth pos with
  | none => pos
  | some (code, pos) =>
    if code = 1 then readVbrStop buf 8 pos
    else if code = 2 then abbrevDefineStop buf blk.abbrevs pos
    else if code = 3 then
      match readVbr buf 6 pos with
      | none => readVbrStop buf 6 pos
      | some (_, pos) =>
        match readVbr buf 6 pos with
        | none => readVbrStop buf 6 pos
        | some (numOps, pos) => if recordMaxOps < numOps then pos else readOpsStop buf numOps pos
    else decodeRecordStop buf blk.abbrevs code pos

def enterStop (buf : List UInt8) (parentWidth pos : Nat) : Nat :=
  match readBits buf parentWidth pos with
  | none => pos
  | some (code, pos) =>
    if code ≠ 1 then pos
    else match readVbr buf 8 pos with
      | none => readVbrStop buf 8 pos
      | some (_, pos) =>
        match readVbr buf 4 pos with
        | none => readVbrStop buf 4 pos
        | some (width, pos) =>
          if width = 0 ∨ maxAbbrevWidth < width then pos
          else match readBits buf 32 (align32 pos) with
            | none => align32 pos
            | some (_, pos) => pos

/-- After `lagfx_block_skip`, when its result is not looked at. -/
def skipCursor (buf : List UInt8) (parentWidth pos : Nat) : Nat :=
  (blockSkip buf parentWidth pos).getD (enterStop buf parentWidth pos)

/-- After `lagfx_bs_seek`, when its result is not looked at. -/
def seekCursor (buf : List UInt8) (target pos : Nat) : Nat := (bsSeek buf target).getD pos

/-- From `pos` on, and past the buffer by no more than an alignment. -/
def Ahead (buf : List UInt8) (pos p : Nat) : Prop := pos ≤ p ∧ p ≤ max pos (8*buf.length+31)

variable {buf : List UInt8} {pos p q : Nat}

theorem Ahead.refl (buf : List UInt8) (pos : Nat) : Ahead buf pos pos := ⟨by omega, by omega⟩

theorem Ahead.trans (h : Ahead buf pos p) (h' : Ahead buf p q) : Ahead buf pos q := by
  obtain ⟨h₁, h₂⟩ := h
  obtain ⟨h₃, h₄⟩ := h'
  exact ⟨by omega, by omega⟩

/- A successful read of at least a bit. -/
def Moves (buf : List UInt8) (pos p : Nat) : Prop := pos < p ∧ p ≤ 8*buf.length

theorem Moves.ahead (h : Moves buf pos p) : Ahead buf pos p := by
  obtain ⟨h₁, h₂⟩ := h
  exact ⟨by omega, by omega⟩

theorem Moves.trans_ahead (h : Moves buf pos p) (h' : Ahead buf p q) :
    pos < q ∧ Ahead buf pos q :=
  ⟨Nat.lt_of_lt_of_le h.1 h'.1, h.ahead.trans h'⟩

theorem align32_ahead (buf : List UInt8) (h : pos ≤ 8*buf.length) : Ahead buf pos (align32 pos) := by
  rw [align32]
  exact ⟨by omega, by omega⟩

theorem readBits_moves {n v : Nat} (h : readBits buf n pos = some (v, p)) :
    Moves buf pos p ∧ p = pos+n := by
  simp only [readBits] at h
  split_ifs at h with hn hlen
  simp only [Option.some.injEq, Prod.mk.injEq] at h
  obtain ⟨-, rfl⟩ := h
  exact ⟨⟨by omega, by omega⟩, rfl⟩

theorem vbrLoop_moves {n limit : Nat} (hn : 2 ≤ n) {val shift v : Nat}
    (h : vbrLoop buf n limit hn val shift pos = some (v, p)) : Moves buf pos p := by
  fun_induction vbrLoop buf n limit hn val shift pos with
  | case1 => cases h
  | case2 val shift pos chunk pos' hread val' hlast =>
    obtain ⟨-, rfl⟩ := Prod.mk.inj (Option.some.inj h)
    exact (readBits_moves hread).1
  | case3 => cases h
  | case4 val shift pos chunk pos' hread val' hmore hroom ih =>
    exact ⟨Nat.lt_trans (readBits_moves hread).1.1 (ih h).1, (ih h).2⟩

theorem readVbrOf_moves {limit n v : Nat} (h : readVbrOf limit buf n pos = some (v, p)) :
    Moves buf pos p := by
  simp only [readVbrOf] at h
  split_ifs at h with hn
  exact vbrLoop_moves hn.1 h

theorem readVbr_moves {n v : Nat} (h : readVbr buf n pos = some (v, p)) : Moves buf pos p :=
  readVbrOf_moves h

theorem readVbr64_moves {n v : Nat} (h : readVbr64 buf n pos = some (v, p)) : Moves buf pos p :=
  readVbrOf_moves h

theorem vbrStop_ahead (n limit fuel shift pos : Nat) :
    Ahead buf pos (vbrStop buf n limit fuel shift pos) := by
  induction fuel generalizing shift pos with
  | zero => exact .refl buf pos
  | succ fuel ih =>
    cases h : readBits buf n pos with
    | none => simp only [vbrStop, h]; exact .refl buf pos
    | some vp =>
      have hp := (readBits_moves h).1.ahead
      simp only [vbrStop, h]
      split_ifs
      · exact hp
      · exact hp
      · exact hp.trans (ih _ _)

theorem readVbrStop_ahead (n pos : Nat) : Ahead buf pos (readVbrStop buf n pos) := by
  rw [readVbrStop]
  split_ifs
  · exact vbrStop_ahead ..
  · exact .refl buf pos

theorem readVbr64Stop_ahead (n pos : Nat) : Ahead buf pos (readVbr64Stop buf n pos) := by
  rw [readVbr64Stop]
  split_ifs
  · exact vbrStop_ahead ..
  · exact .refl buf pos

theorem readAbbrevOp_moves {op : AbbrevOp} (h : readAbbrevOp buf pos = some (op, p)) :
    Moves buf pos p := by
  simp only [readAbbrevOp, Option.bind_eq_bind, Option.bind_eq_some_iff] at h
  obtain ⟨⟨lit, p₁⟩, h₁, h⟩ := h
  have hm := (readBits_moves h₁).1
  split_ifs at h with hlit
  · simp only [Option.bind_eq_some_iff] at h
    obtain ⟨⟨v, p₂⟩, h₂, h⟩ := h
    cases h
    exact ⟨Nat.lt_trans hm.1 (readVbr64_moves h₂).1, (readVbr64_moves h₂).2⟩
  · simp only [Option.bind_eq_some_iff] at h
    obtain ⟨⟨enc, p₂⟩, h₂, h⟩ := h
    have hm₂ := (readBits_moves h₂).1
    split_ifs at h
    all_goals first
      | (cases h; exact ⟨Nat.lt_trans hm.1 hm₂.1, hm₂.2⟩)
      | (simp only [Option.bind_eq_some_iff] at h
         obtain ⟨⟨w, p₃⟩, h₃, h⟩ := h
         cases h
         have hm₃ := readVbr_moves h₃
         exact ⟨Nat.lt_trans (Nat.lt_trans hm.1 hm₂.1) hm₃.1, hm₃.2⟩)

theorem abbrevOpStop_ahead (pos : Nat) : Ahead buf pos (abbrevOpStop buf pos) := by
  rw [abbrevOpStop]
  split
  · exact .refl buf pos
  · rename_i lit p₁ h₁
    have hm := (readBits_moves h₁).1.ahead
    split_ifs
    · exact hm.trans (readVbr64Stop_ahead ..)
    · split
      · exact hm
      · rename_i enc p₂ h₂
        have hm₂ := hm.trans (readBits_moves h₂).1.ahead
        split_ifs
        · exact hm₂.trans (readVbrStop_ahead ..)
        · exact hm₂

theorem readAbbrevOps_ahead {n : Nat} {ab : Abbrev} (h : readAbbrevOps buf n pos = some (ab, p)) :
    Ahead buf pos p := by
  induction n generalizing pos ab with
  | zero => cases h; exact .refl buf _
  | succ n ih =>
    simp only [readAbbrevOps, Option.bind_eq_bind, Option.bind_eq_some_iff] at h
    obtain ⟨⟨op, p₁⟩, h₁, ⟨ops, p₂⟩, h₂, h⟩ := h
    cases h
    exact (readAbbrevOp_moves h₁).ahead.trans (ih h₂)

theorem abbrevOpsStop_ahead (n pos : Nat) : Ahead buf pos (abbrevOpsStop buf n pos) := by
  induction n generalizing pos with
  | zero => exact .refl buf pos
  | succ n ih =>
    cases h : readAbbrevOp buf pos with
    | none => simp only [abbrevOpsStop, h]; exact abbrevOpStop_ahead pos
    | some vp => simp only [abbrevOpsStop, h]; exact (readAbbrevOp_moves h).ahead.trans (ih _)

theorem abbrevTableDefine_ahead {table ab : List Abbrev}
    (h : abbrevTableDefine buf table pos = some (ab, p)) : Ahead buf pos p := by
  simp only [abbrevTableDefine, Option.bind_eq_bind] at h
  split_ifs at h
  obtain ⟨⟨n, p₁⟩, h₁, h⟩ := Option.bind_eq_some_iff.1 h
  simp only at h
  split_ifs at h
  obtain ⟨⟨op, p₂⟩, h₂, h⟩ := Option.bind_eq_some_iff.1 h
  cases h
  exact (readVbr_moves h₁).ahead.trans (readAbbrevOps_ahead h₂)

theorem abbrevDefineStop_ahead (table : List Abbrev) (pos : Nat) :
    Ahead buf pos (abbrevDefineStop buf table pos) := by
  rw [abbrevDefineStop]
  split_ifs
  · exact .refl buf pos
  · split
    · exact readVbrStop_ahead ..
    · rename_i n p₁ h₁
      have hm := (readVbr_moves h₁).ahead
      split_ifs
      · exact hm
      · exact hm.trans (abbrevOpsStop_ahead ..)

theorem decodeOneValue_ahead {op : AbbrevOp} {v : Nat}
    (h : decodeOneValue buf op pos = some (v, p)) : Ahead buf pos p := by
  cases op with
  | literal w => cases h; exact .refl buf _
  | fixed w =>
    simp only [decodeOneValue, Option.bind_eq_bind] at h
    split_ifs at h
    · cases h; exact .refl buf _
    · obtain ⟨⟨lo, p₁⟩, h₁, h⟩ := Option.bind_eq_some_iff.1 h
      obtain ⟨⟨hi, p₂⟩, h₂, h⟩ := Option.bind_eq_some_iff.1 h
      cases h
      exact (readBits_moves h₁).1.ahead.trans (readBits_moves h₂).1.ahead
    · exact (readBits_moves h).1.ahead
  | vbr w => exact (readVbr64_moves h).ahead
  | char6 =>
    simp only [decodeOneValue, Option.bind_eq_bind] at h
    obtain ⟨⟨v, p₁⟩, h₁, h⟩ := Option.bind_eq_some_iff.1 h
    cases h
    exact (readBits_moves h₁).1.ahead
  | array => cases h
  | blob => cases h

theorem oneValueStop_ahead (op : AbbrevOp) (pos : Nat) :
    Ahead buf pos (oneValueStop buf op pos) := by
  cases op with
  | fixed w =>
    simp only [oneValueStop]
    split_ifs
    · exact .refl buf pos
    · split
      · exact .refl buf pos
      · rename_i lo p₁ h₁
        exact (readBits_moves h₁).1.ahead
  | vbr w => exact readVbr64Stop_ahead ..
  | _ => exact .refl buf pos

theorem decodeElems_ahead {elem : AbbrevOp} {n : Nat} {r r' : PartialRecord}
    (h : decodeElems buf elem n r pos = some (r', p)) : Ahead buf pos p := by
  induction n generalizing pos r with
  | zero => cases h; exact .refl buf _
  | succ n ih =>
    simp only [decodeElems, Option.bind_eq_bind] at h
    obtain ⟨⟨v, p₁⟩, h₁, h⟩ := Option.bind_eq_some_iff.1 h
    exact (decodeOneValue_ahead h₁).trans (ih h)

theorem elemsStop_ahead (elem : AbbrevOp) (n pos : Nat) :
    Ahead buf pos (elemsStop buf elem n pos) := by
  induction n generalizing pos with
  | zero => exact .refl buf pos
  | succ n ih =>
    cases h : decodeOneValue buf elem pos with
    | none => simp only [elemsStop, h]; exact oneValueStop_ahead ..
    | some vp => simp only [elemsStop, h]; exact (decodeOneValue_ahead h).trans (ih _)

/-- The cursor behind a blob of `length` bytes that lies in the buffer. -/
theorem blob_ahead {length : Nat} (h : ¬ buf.length < align32 pos/8+length)
    (hpos : pos ≤ 8*buf.length) : Ahead buf pos (align32 (align32 pos+8*length)) := by
  have hmod := align32_mod pos
  have hal := align32_ahead buf hpos
  refine hal.trans ⟨?_, ?_⟩
  · simp only [align32] at hmod ⊢
    omega
  · simp only [align32] at hmod h ⊢
    omega

theorem decodeOps_ahead {ab : Abbrev} {r r' : PartialRecord}
    (h : decodeOps buf ab r pos = some (r', p)) : Ahead buf pos p := by
  induction ab, r, pos using decodeOps.induct buf with
  | case1 r pos => cases h; exact .refl buf _
  | case2 => cases h
  | case3 elem ops r pos ih =>
    simp only [decodeOps, Option.bind_eq_bind] at h
    obtain ⟨⟨len, p₁⟩, h₁, h⟩ := Option.bind_eq_some_iff.1 h
    simp only at h
    split_ifs at h
    obtain ⟨⟨r₁, p₂⟩, h₂, h⟩ := Option.bind_eq_some_iff.1 h
    exact ((readVbr_moves h₁).ahead.trans (decodeElems_ahead h₂)).trans (ih _ _ h)
  | case4 ops r pos ih =>
    simp only [decodeOps, Option.bind_eq_bind] at h
    obtain ⟨⟨len, p₁⟩, h₁, h⟩ := Option.bind_eq_some_iff.1 h
    simp only at h
    split_ifs at h with hlen
    exact (readVbr_moves h₁).ahead.trans
      ((blob_ahead hlen (readVbr_moves h₁).2).trans (ih _ _ h))
  | case5 op ops r pos hnil helem hblob ih =>
    simp only [decodeOps, Option.bind_eq_bind] at h
    obtain ⟨⟨v, p₁⟩, h₁, h⟩ := Option.bind_eq_some_iff.1 h
    simp only at h
    split_ifs at h
    exact (decodeOneValue_ahead h₁).trans (ih _ _ h)

theorem opsStop_ahead (ab : Abbrev) (r : PartialRecord) (pos : Nat) :
    Ahead buf pos (opsStop buf ab r pos) := by
  fun_induction opsStop buf ab r pos with
  | case1 => exact .refl buf _
  | case2 => exact .refl buf _
  | case3 => exact readVbrStop_ahead ..
  | case4 _ _ _ _ _ _ hlen => exact (readVbr_moves hlen).ahead
  | case5 _ _ _ _ _ _ hlen => exact (readVbr_moves hlen).ahead.trans (elemsStop_ahead ..)
  | case6 _ _ _ _ _ _ hlen _ _ _ helems ih =>
    exact ((readVbr_moves hlen).ahead.trans (decodeElems_ahead helems)).trans ih
  | case7 => exact readVbrStop_ahead ..
  | case8 _ _ _ _ _ hlen =>
    exact (readVbr_moves hlen).ahead.trans (align32_ahead buf (readVbr_moves hlen).2)
  | case9 _ _ _ _ _ hlen _ hfits ih =>
    exact (readVbr_moves hlen).ahead.trans ((blob_ahead hfits (readVbr_moves hlen).2).trans ih)
  | case10 => exact oneValueStop_ahead ..
  | case11 _ _ _ _ _ _ _ _ _ hval => exact decodeOneValue_ahead hval
  | case12 _ _ _ _ _ _ _ _ _ hval _ ih => exact (decodeOneValue_ahead hval).trans ih

theorem abbrevDecodeRecord_ahead {table : List Abbrev} {i : Nat} {r : BsRecord}
    (h : abbrevDecodeRecord buf table i pos = some (r, p)) : Ahead buf pos p := by
  simp only [abbrevDecodeRecord, Option.bind_eq_bind] at h
  split_ifs at h
  obtain ⟨ab, h₁, h⟩ := Option.bind_eq_some_iff.1 h
  obtain ⟨⟨r', p₁⟩, h₂, h⟩ := Option.bind_eq_some_iff.1 h
  obtain ⟨code, h₃, h⟩ := Option.bind_eq_some_iff.1 h
  cases h
  exact decodeOps_ahead h₂

theorem decodeRecordStop_ahead (table : List Abbrev) (i pos : Nat) :
    Ahead buf pos (decodeRecordStop buf table i pos) := by
  rw [decodeRecordStop]
  split_ifs
  · exact .refl buf _
  · split
    · exact .refl buf _
    · exact opsStop_ahead ..

theorem readOps_ahead {n : Nat} {ops : List Nat} (h : readOps buf n pos = some (ops, p)) :
    Ahead buf pos p := by
  induction n generalizing pos ops with
  | zero => cases h; exact .refl buf _
  | succ n ih =>
    simp only [readOps, Option.bind_eq_bind] at h
    obtain ⟨⟨v, p₁⟩, h₁, h⟩ := Option.bind_eq_some_iff.1 h
    obtain ⟨⟨vs, p₂⟩, h₂, h⟩ := Option.bind_eq_some_iff.1 h
    cases h
    exact (readVbr64_moves h₁).ahead.trans (ih h₂)

theorem readOpsStop_ahead (n pos : Nat) : Ahead buf pos (readOpsStop buf n pos) := by
  fun_induction readOpsStop buf n pos with
  | case1 => exact .refl buf _
  | case2 => exact readVbr64Stop_ahead ..
  | case3 _ _ _ _ hval ih => exact (readVbr64_moves hval).ahead.trans ih

theorem nextRecordStop_ahead (blk : BsBlock) (pos : Nat) :
    Ahead buf pos (nextRecordStop buf blk pos) := by
  rw [nextRecordStop]
  split
  · exact .refl buf _
  · rename_i code p₁ h₁
    refine (readBits_moves h₁).1.ahead.trans ?_
    split_ifs
    · exact readVbrStop_ahead ..
    · exact abbrevDefineStop_ahead ..
    · split
      · exact readVbrStop_ahead ..
      · rename_i recordCode p₂ h₂
        refine (readVbr_moves h₂).ahead.trans ?_
        split
        · exact readVbrStop_ahead ..
        · rename_i numOps p₃ h₃
          refine (readVbr_moves h₃).ahead.trans ?_
          split_ifs
          · exact .refl buf _
          · exact readOpsStop_ahead ..
    · exact decodeRecordStop_ahead ..

/-- The next item: a sub-block leaves the cursor where it was, behind a readable
ENTER_SUBBLOCK code; every other item inside of the block takes it on. -/
inductive Takes (buf : List UInt8) (blk : BsBlock) (pos : Nat) : BsEvent → BsBlock → Nat → Prop
  | sub (id : Nat) {p : Nat} (hcode : readBits buf blk.abbrevWidth pos = some (1, p)) :
    Takes buf blk pos (.subblock id) blk pos
  | item {ev : BsEvent} {blk' : BsBlock} {p : Nat} (hev : ∀ id, ev ≠ .subblock id)
    (hend : blk'.endPos = blk.endPos) (hlt : pos < p) (hp : Ahead buf pos p) :
    Takes buf blk pos ev blk' p

theorem nextRecord_takes {blk blk' : BsBlock} {ev : BsEvent} (hin : pos < blk.endPos)
    (h : blockNextRecord buf blk pos = some (ev, blk', p)) : Takes buf blk pos ev blk' p := by
  rw [blockNextRecord, if_neg (by omega), Option.bind_eq_bind] at h
  obtain ⟨⟨code, p₁⟩, h₁, h⟩ := Option.bind_eq_some_iff.1 h
  obtain ⟨hm, hp₁⟩ := readBits_moves h₁
  simp only [Option.bind_eq_bind] at h
  split_ifs at h with h0 h1 h2 h3
  · cases h
    have hgo := hm.trans_ahead (align32_ahead buf hm.2)
    exact .item (by simp) rfl hgo.1 hgo.2
  · obtain ⟨⟨id, p₂⟩, h₂, h⟩ := Option.bind_eq_some_iff.1 h
    obtain ⟨back, h₃, h⟩ := Option.bind_eq_some_iff.1 h
    simp only [bsSeek] at h₃
    split_ifs at h₃
    cases h₃
    cases h
    rw [show p₁-blk.abbrevWidth = pos by omega]
    exact .sub id (by rw [h₁, h1])
  · obtain ⟨⟨abbrevs, p₂⟩, h₂, h⟩ := Option.bind_eq_some_iff.1 h
    cases h
    have hgo := hm.trans_ahead (abbrevTableDefine_ahead h₂)
    exact .item (by simp) rfl hgo.1 hgo.2
  · obtain ⟨⟨recordCode, p₂⟩, h₂, h⟩ := Option.bind_eq_some_iff.1 h
    obtain ⟨⟨numOps, p₃⟩, h₃, h⟩ := Option.bind_eq_some_iff.1 h
    simp only at h
    split_ifs at h
    obtain ⟨⟨ops, p₄⟩, h₄, h⟩ := Option.bind_eq_some_iff.1 h
    cases h
    have hgo := hm.trans_ahead
      (((readVbr_moves h₂).ahead.trans (readVbr_moves h₃).ahead).trans (readOps_ahead h₄))
    exact .item (by simp) rfl hgo.1 hgo.2
  · obtain ⟨⟨r, p₂⟩, h₂, h⟩ := Option.bind_eq_some_iff.1 h
    cases h
    have hgo := hm.trans_ahead (abbrevDecodeRecord_ahead h₂)
    exact .item (by simp) rfl hgo.1 hgo.2

/-- An entered block begins ahead and ends no earlier than it begins. -/
theorem blockEnter_takes {width : Nat} {info : Option Blockinfo} {blk : BsBlock}
    (h : blockEnter buf width info pos = some (blk, p)) :
    pos < p ∧ Ahead buf pos p ∧ p ≤ blk.endPos := by
  simp only [blockEnter, Option.bind_eq_bind] at h
  obtain ⟨⟨code, p₁⟩, h₁, h⟩ := Option.bind_eq_some_iff.1 h
  have hm := (readBits_moves h₁).1
  simp only at h
  split_ifs at h
  obtain ⟨⟨sub, p₂⟩, h₂, h⟩ := Option.bind_eq_some_iff.1 h
  have hsub : Ahead buf p₁ p₂ ∧ p₂ ≤ sub.endPos := by
    simp only [readEnterSubblockPayload, Option.bind_eq_bind] at h₂
    obtain ⟨⟨id, q₁⟩, g₁, h₂⟩ := Option.bind_eq_some_iff.1 h₂
    obtain ⟨⟨w, q₂⟩, g₂, h₂⟩ := Option.bind_eq_some_iff.1 h₂
    simp only at h₂
    split_ifs at h₂
    obtain ⟨⟨words, q₃⟩, g₃, h₂⟩ := Option.bind_eq_some_iff.1 h₂
    cases h₂
    have hq₂ := readVbr_moves g₂
    exact ⟨((readVbr_moves g₁).ahead.trans hq₂.ahead).trans
      ((align32_ahead buf hq₂.2).trans (readBits_moves g₃).1.ahead), Nat.le_add_right ..⟩
  have hgo := hm.trans_ahead hsub.1
  have hblk : p = p₂ ∧ blk.endPos = sub.endPos := by
    cases info with
    | none => cases h; exact ⟨rfl, rfl⟩
    | some info =>
      simp only at h
      split_ifs at h
      · obtain ⟨abbrevs, _, h⟩ := Option.bind_eq_some_iff.1 h
        cases h
        exact ⟨rfl, rfl⟩
      · cases h
        exact ⟨rfl, rfl⟩
  obtain ⟨rfl, hend⟩ := hblk
  exact ⟨hgo.1, hgo.2, by omega⟩

theorem enterStop_code {width code p₁ : Nat} (h : readBits buf width pos = some (code, p₁)) :
    Ahead buf p₁ (enterStop buf width pos) := by
  simp only [enterStop, h]
  split_ifs
  · exact .refl buf _
  · split
    · exact readVbrStop_ahead ..
    · rename_i id p₂ h₂
      refine (readVbr_moves h₂).ahead.trans ?_
      split
      · exact readVbrStop_ahead ..
      · rename_i w p₃ h₃
        refine (readVbr_moves h₃).ahead.trans ?_
        split_ifs
        · exact .refl buf _
        · have hal := align32_ahead buf (readVbr_moves h₃).2
          split
          · exact hal
          · rename_i words p₄ h₄
            exact hal.trans (readBits_moves h₄).1.ahead

theorem enterStop_ahead (width pos : Nat) : Ahead buf pos (enterStop buf width pos) := by
  cases h : readBits buf width pos with
  | none => simp only [enterStop, h]; exact .refl buf _
  | some vp => exact (readBits_moves h).1.ahead.trans (enterStop_code h)

/-- At a readable ENTER_SUBBLOCK code an unsuccessful entry takes the cursor on, too. -/
theorem lt_enterStop {width p₁ : Nat} (h : readBits buf width pos = some (1, p₁)) :
    pos < enterStop buf width pos :=
  ((readBits_moves h).1.trans_ahead (enterStop_code h)).1

theorem bsSeek_some {target : Nat} (h : bsSeek buf target = some p) :
    p = target ∧ target ≤ 8*buf.length := by
  simp only [bsSeek] at h
  split_ifs at h
  cases h
  exact ⟨rfl, by omega⟩

theorem blockSkip_takes {width : Nat} (h : blockSkip buf width pos = some p) :
    pos < p ∧ Ahead buf pos p := by
  simp only [blockSkip, Option.bind_eq_bind] at h
  obtain ⟨⟨blk, first⟩, h₁, h⟩ := Option.bind_eq_some_iff.1 h
  obtain ⟨hlt, -, hend⟩ := blockEnter_takes h₁
  obtain ⟨hp, hle⟩ := bsSeek_some h
  simp only at hp hle
  exact ⟨by omega, by omega, by omega⟩

theorem skipCursor_takes {width p₁ : Nat} (h : readBits buf width pos = some (1, p₁)) :
    pos < skipCursor buf width pos ∧ Ahead buf pos (skipCursor buf width pos) := by
  rw [skipCursor]
  cases hs : blockSkip buf width pos with
  | none => exact ⟨lt_enterStop h, enterStop_ahead width pos⟩
  | some stop => exact blockSkip_takes hs

end Lagfx
