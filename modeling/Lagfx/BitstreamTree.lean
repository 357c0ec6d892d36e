import Lagfx.BitstreamCodec

/-! Trees of blocks: which abbreviations are in scope where, how a tree is written, and
that a walk of the written tree gives back its items at every level. -/
namespace Lagfx
open ByteMemory Bits

/- The items of a block up to its END_BLOCK; a sub-block has its own. An abbreviated
   record names its abbreviation by its place in the block's table. -/
inductive BsItems where
  | nil
  | record (code : Nat) (ops : List Nat) (rest : BsItems)
  | define (ab : Abbrev) (rest : BsItems)
  | abbreviated (i : Nat) (r : BsRecord) (rest : BsItems)
  | block (id width : Nat) (body rest : BsItems)

/- What is in scope: the abbreviations BLOCKINFO has installed by block id, those of
   the current block, and inside BLOCKINFO the target of the last SETBID. -/
structure Scope where
  info : Nat → List Abbrev
  cur : List Abbrev
  inInfo : Bool
  target : Option Nat

def Scope.empty : Scope := ⟨fun _ => [], [], false, none⟩

def Scope.enter (s : Scope) (id : Nat) : Scope := ⟨s.info, s.info id, id = 0, none⟩

def Scope.record (s : Scope) (r : BsRecord) : Scope :=
  match r.ops with
  | [] => s
  | op::_ => if s.inInfo ∧ r.code = 1 then { s with target := some (u32 op) } else s

def Scope.define (s : Scope) (ab : Abbrev) : Scope :=
  match s.target with
  | none => { s with cur := s.cur ++ [ab] }
  | some t => { s with
      cur := s.cur ++ [ab]
      info := Function.update s.info t (s.info t ++ [ab]) }

/-- The scope after the items of a block. -/
def Scope.after (s : Scope) : BsItems → Scope
  | .nil => s
  | .record code ops rest => (s.record ⟨code, ops, none⟩).after rest
  | .define ab rest => (s.define ab).after rest
  | .abbreviated _ r rest => (s.record r).after rest
  | .block id _ body rest => Scope.after { s with info := ((s.enter id).after body).info } rest

def putRecordItem (width code : Nat) (ops : List Nat) : List Bool :=
  putBits width 3 ++ (putVbr 6 code ++ (putVbr 6 ops.length ++ ops.flatMap (putVbr 6)))

def putDefineItem (width : Nat) (ab : Abbrev) : List Bool :=
  putBits width 2 ++ (putVbr 5 ab.length ++ putAbbrevOps ab)

def putAbbreviatedItem (s : Scope) (width i : Nat) (r : BsRecord) (pos : Nat) : List Bool :=
  putBits width (4+i) ++ putRecord (s.cur.getD i []) r (pos+width)

def putEnd (width pos : Nat) : List Bool := putBits width 0 ++ pad32 (pos+width)

def putHead (width id w : Nat) : List Bool := putBits width 1 ++ (putVbr 8 id ++ putVbr 4 w)

/-- Where the items of a block start whose ENTER_SUBBLOCK is at `pos`. -/
def bodyPos (width id w pos : Nat) : Nat := align32 (pos+(putHead width id w).length)+32

def putEnter (width id w pos words : Nat) : List Bool :=
  putHead width id w ++ (pad32 (pos+(putHead width id w).length) ++ putBits 32 words)

/-- The items of a block and its END_BLOCK, written from `pos` on. -/
def putItems (s : Scope) (width : Nat) : BsItems → Nat → List Bool
  | .nil, pos => putEnd width pos
  | .record code ops rest, pos =>
    let item := putRecordItem width code ops
    item ++ putItems (s.record ⟨code, ops, none⟩) width rest (pos+item.length)
  | .define ab rest, pos =>
    let item := putDefineItem width ab
    item ++ putItems (s.define ab) width rest (pos+item.length)
  | .abbreviated i r rest, pos =>
    let item := putAbbreviatedItem s width i r pos
    item ++ putItems (s.record r) width rest (pos+item.length)
  | .block id w body rest, pos =>
    let inner := putItems (s.enter id) w body (bodyPos width id w pos)
    let item := putEnter width id w pos (inner.length/32) ++ inner
    item ++ putItems { s with info := ((s.enter id).after body).info } width rest
      (pos+item.length)

def putBlock (s : Scope) (width id w : Nat) (body : BsItems) (pos : Nat) : List Bool :=
  let inner := putItems (s.enter id) w body (bodyPos width id w pos)
  putEnter width id w pos (inner.length/32) ++ inner

/-- The trees a writer may write: records and patterns within the format's ranges,
abbreviations used only in scope, at most 64 of them to a block, and a word count
that fits its field. BLOCKINFO has no sub-blocks. -/
def LegalItems (s : Scope) (width : Nat) : BsItems → Nat → Prop
  | .nil, _ => True
  | .record code ops rest, pos =>
    (code < 2^32 ∧ ops.length ≤ recordMaxOps ∧ ∀ v ∈ ops, v < 2^64) ∧
    LegalItems (s.record ⟨code, ops, none⟩) width rest
      (pos+(putRecordItem width code ops).length)
  | .define ab rest, pos =>
    (LegalAbbrev ab ∧ s.cur.length < abbrevMaxPerBlock) ∧
    LegalItems (s.define ab) width rest (pos+(putDefineItem width ab).length)
  | .abbreviated i r rest, pos =>
    (4+i < 2^width ∧ r.code < 2^32 ∧ r.ops.length ≤ recordMaxOps ∧
      ∃ ab, s.cur[i]? = some ab ∧ LegalAbbrev ab ∧ FitsAbbrev ab r) ∧
    LegalItems (s.record r) width rest (pos+(putAbbreviatedItem s width i r pos).length)
  | .block id w body rest, pos =>
    (s.inInfo = false ∧ id < 2^32 ∧ 2 ≤ w ∧ w ≤ maxAbbrevWidth ∧
      (s.info id).length ≤ abbrevMaxPerBlock ∧
      (putItems (s.enter id) w body (bodyPos width id w pos)).length/32 < 2^32 ∧
      LegalItems (s.enter id) w body (bodyPos width id w pos)) ∧
    LegalItems { s with info := ((s.enter id).after body).info } width rest
      (pos+(putBlock s width id w body pos).length)

/-- Every DEFINE_ABBREV of BLOCKINFO is for a block id the reader has a table for. -/
def InReach (s : Scope) : BsItems → Prop
  | .nil => True
  | .record code ops rest => InReach (s.record ⟨code, ops, none⟩) rest
  | .define ab rest =>
    (∀ t, s.target = some t → t ≠ 0 ∧ t < blockinfoMaxBlockIds) ∧ InReach (s.define ab) rest
  | .abbreviated _ r rest => InReach (s.record r) rest
  | .block id _ body rest =>
    InReach (s.enter id) body ∧ InReach { s with info := ((s.enter id).after body).info } rest

/-- The walk saw these items: the same records and patterns, at the end of a block the
abbreviations in scope there, and sub-blocks that a skip leaves where the walk does. -/
def Agrees (buf : List UInt8) (s : Scope) (width : Nat) : BsItems → WalkItems → Prop
  | .nil, .stop abbrevs => abbrevs = s.cur
  | .record code ops rest, .record r seen =>
    r = ⟨code, ops, none⟩ ∧ Agrees buf (s.record ⟨code, ops, none⟩) width rest seen
  | .define ab rest, .define ab' seen => ab' = ab ∧ Agrees buf (s.define ab) width rest seen
  | .abbreviated _ r rest, .record r' seen => r' = r ∧ Agrees buf (s.record r) width rest seen
  | .block id w body rest, .block id' start stop inner seen =>
    id' = id ∧ blockSkip buf width start = some stop ∧ Agrees buf (s.enter id) w body inner ∧
      Agrees buf { s with info := ((s.enter id).after body).info } width rest seen
  | _, _ => False

/- How the reader's tables follow the scope. -/

def InfoTracks (spec : Nat → List Abbrev) (info : Blockinfo) : Prop :=
  (∀ id, id < blockinfoMaxBlockIds → info id = (spec id).take abbrevMaxPerBlock) ∧
    ∀ id, id = 0 ∨ blockinfoMaxBlockIds ≤ id → spec id = []

structure ScopeTracks (s : Scope) (abbrevs : List Abbrev) (info : Blockinfo)
    (target : Option Nat) : Prop where
  cur : abbrevs = s.cur
  info : InfoTracks s.info info
  target : target = if s.inInfo then some (s.target.getD noTarget) else none
  outside : s.inInfo = false → s.target = none

theorem ScopeTracks.record {s : Scope} {abbrevs : List Abbrev} {info : Blockinfo}
    {target : Option Nat} (h : ScopeTracks s abbrevs info target) (r : BsRecord) :
    ScopeTracks (s.record r) abbrevs info (setTarget target r) := by
  obtain ⟨hcur, hinfo, ht, hout⟩ := h
  cases hops : r.ops with
  | nil =>
    have hs : s.record r = s := by simp [Scope.record, hops]
    have hset : setTarget target r = target := by cases target <;> simp [setTarget, hops]
    rw [hs, hset]
    exact ⟨hcur, hinfo, ht, hout⟩
  | cons op ops =>
    cases hin : s.inInfo with
    | false =>
      have hs : s.record r = s := by simp [Scope.record, hops, hin]
      have hset : setTarget target r = target := by simp [setTarget, ht, hin]
      rw [hs, hset]
      exact ⟨hcur, hinfo, ht, hout⟩
    | true =>
      by_cases hcode : r.code = 1
      · refine ⟨?_, ?_, ?_, ?_⟩ <;> simp [Scope.record, setTarget, hops, hin, hcode, ht, hcur, hinfo]
      · have hs : s.record r = s := by simp [Scope.record, hops, hcode]
        have hset : setTarget target r = target := by simp [setTarget, hops, ht, hin, hcode]
        rw [hs, hset]
        exact ⟨hcur, hinfo, ht, hout⟩

theorem infoTracks_install {spec : Nat → List Abbrev} {info : Blockinfo}
    (h : InfoTracks spec info) {t : Nat} (ht : t ≠ 0 ∧ t < blockinfoMaxBlockIds) (ab : Abbrev) :
    InfoTracks (Function.update spec t (spec t ++ [ab])) (installAbbrev info (some t) ab) := by
  have hi := h.1 t ht.2
  have hlen : (info t).length = min abbrevMaxPerBlock (spec t).length := by
    rw [hi, List.length_take]
  constructor
  · intro id hid
    by_cases heq : id = t
    · subst heq
      rw [Function.update_self, installAbbrev]
      by_cases hroom : (info id).length < abbrevMaxPerBlock
      · have hall : info id = spec id := by rw [hi, List.take_of_length_le (by omega)]
        rw [if_pos ⟨hid, hroom⟩, Function.update_self, hall,
          List.take_of_length_le (by rw [List.length_append, List.length_singleton]; omega)]
      · rw [if_neg (fun hc => hroom hc.2), hi, List.take_append_of_le_length (by omega)]
    · rw [Function.update_of_ne heq, ← h.1 id hid, installAbbrev]
      split_ifs with hc
      · rw [Function.update_of_ne heq]
      · rfl
  · intro id hid
    rw [Function.update_of_ne (by omega)]
    exact h.2 id hid

theorem ScopeTracks.define {s : Scope} {abbrevs : List Abbrev} {info : Blockinfo}
    {target : Option Nat} (h : ScopeTracks s abbrevs info target)
    (hr : ∀ t, s.target = some t → t ≠ 0 ∧ t < blockinfoMaxBlockIds) (ab : Abbrev) :
    ScopeTracks (s.define ab) (abbrevs ++ [ab]) (installAbbrev info target ab) target := by
  obtain ⟨hcur, hinfo, ht, hout⟩ := h
  cases hst : s.target with
  | none =>
    have hinst : installAbbrev info target ab = info := by
      rw [ht, hst]
      cases hin : s.inInfo with
      | false => rfl
      | true => simp [installAbbrev, noTarget, blockinfoMaxBlockIds]
    rw [hinst]
    refine ⟨?_, ?_, ?_, ?_⟩ <;> simp [Scope.define, hst, hcur, hinfo, ht]
  | some t =>
    have hin : s.inInfo = true := by
      by_contra hne
      rw [hout (by simpa using hne)] at hst
      cases hst
    have htgt : target = some t := by rw [ht, hin, hst]; rfl
    have hinst := infoTracks_install hinfo (hr t hst) ab
    rw [htgt]
    refine ⟨?_, ?_, ?_, ?_⟩
    · simp [Scope.define, hst, hcur]
    · simpa [Scope.define, hst] using hinst
    · simp [Scope.define, hst, hin]
    · simp [Scope.define, hst, hin]

theorem scopeTracks_enter {s : Scope} {info : Blockinfo} (h : InfoTracks s.info info) (id : Nat) :
    ScopeTracks (s.enter id) (s.info id) info (if id = 0 then some noTarget else none) := by
  refine ⟨rfl, h, ?_, fun _ => rfl⟩
  by_cases h0 : id = 0
  · simp [Scope.enter, h0]
  · simp [Scope.enter, h0]

theorem putEnter_length (width id w pos words : Nat) :
    pos+(putEnter width id w pos words).length = bodyPos width id w pos := by
  have hpad := pad32_length (pos+(putHead width id w).length)
  simp only [putEnter, bodyPos, List.length_append, putBits_length]
  omega

/-- Blocks end on a word boundary. -/
theorem putItems_aligned (items : BsItems) (s : Scope) (width pos : Nat) :
    (pos+(putItems s width items pos).length) % 32 = 0 := by
  induction items generalizing s width pos with
  | nil =>
    have hpad := pad32_length (pos+width)
    have hmod := align32_mod (pos+width)
    simp only [putItems, putEnd, List.length_append, putBits_length]
    omega
  | record code ops rest ih =>
    simp only [putItems, List.length_append, ← Nat.add_assoc]
    exact ih _ _ _
  | define ab rest ih =>
    simp only [putItems, List.length_append, ← Nat.add_assoc]
    exact ih _ _ _
  | abbreviated i r rest ih =>
    simp only [putItems, List.length_append, ← Nat.add_assoc]
    exact ih _ _ _
  | block id w body rest ihb ih =>
    rw [putItems, List.length_append, ← Nat.add_assoc]
    exact ih _ _ _

theorem putItems_block (s : Scope) (width id w : Nat) (body rest : BsItems) (pos : Nat) :
    putItems s width (.block id w body rest) pos = putBlock s width id w body pos ++
      putItems { s with info := ((s.enter id).after body).info } width rest
        (pos+(putBlock s width id w body pos).length) := rfl

theorem putBlock_length (s : Scope) (width id w : Nat) (body : BsItems) (pos : Nat) :
    pos+(putBlock s width id w body pos).length = bodyPos width id w pos+
      (putItems (s.enter id) w body (bodyPos width id w pos)).length := by
  rw [putBlock, List.length_append, ← Nat.add_assoc, putEnter_length]

theorem bodyPos_mod (width id w pos : Nat) : bodyPos width id w pos % 32 = 0 := by
  have h := align32_mod (pos+(putHead width id w).length)
  rw [bodyPos]
  omega

theorem putItems_words (items : BsItems) (s : Scope) (width : Nat) {pos : Nat} (h : pos%32 = 0) :
    (putItems s width items pos).length/32*32 = (putItems s width items pos).length := by
  have ha := putItems_aligned items s width pos
  omega

theorem putItems_ne_nil (items : BsItems) (s : Scope) {width : Nat} (hw : 2 ≤ width) (pos : Nat) :
    2 ≤ (putItems s width items pos).length := by
  cases items with
  | nil =>
    simp only [putItems, putEnd, List.length_append, putBits_length]
    omega
  | record code ops rest =>
    simp only [putItems, putRecordItem, List.length_append, putBits_length]
    omega
  | define ab rest =>
    simp only [putItems, putDefineItem, List.length_append, putBits_length]
    omega
  | abbreviated i r rest =>
    simp only [putItems, putAbbreviatedItem, List.length_append, putBits_length]
    omega
  | block id w body rest =>
    simp only [putItems, putEnter, putHead, List.length_append, putBits_length]
    omega

theorem four_le_two_pow {w : Nat} (h : 2 ≤ w) : 4 ≤ 2^w :=
  Nat.pow_le_pow_right (show 0 < 2 by omega) h

/-- The header of a block is read back, whatever table is installed. -/
theorem readEnterSubblockPayload_at {buf : List UInt8} {width id w pos words : Nat}
    (hid : id < 2^32) (h1 : 1 ≤ w) (h8 : w ≤ maxAbbrevWidth) (hwords : words < 2^32)
    (h : BitsAt buf pos (putEnter width id w pos words)) :
    readEnterSubblockPayload buf (pos+width) =
      some (⟨w, id, bodyPos width id w pos+words*32, []⟩, bodyPos width id w pos) := by
  have hmax : maxAbbrevWidth = 8 := rfl
  obtain ⟨hhead, hrest⟩ := bitsAt_append.mp h
  obtain ⟨hpad, hsize⟩ := bitsAt_append.mp hrest
  obtain ⟨hcode, hvbr⟩ := bitsAt_append.mp hhead
  obtain ⟨hvid, hvw⟩ := bitsAt_append.mp hvbr
  simp only [putBits_length] at hvid hvw
  rw [pad32_length] at hsize
  have hpos : pos+width+(putVbr 8 id).length+(putVbr 4 w).length =
      pos+(putHead width id w).length := by
    simp only [putHead, List.length_append, putBits_length]
    omega
  rw [readEnterSubblockPayload, readVbr_at hvid (by omega) (by omega) hid]
  simp only [Option.bind_eq_bind, Option.bind_some]
  rw [readVbr_at hvw (by omega) (by omega) (by omega)]
  simp only [Option.bind_some]
  rw [if_neg (by omega), hpos, readBits_lt_at hsize (by omega) (by omega) hwords]
  rfl

theorem enterCode_at {buf : List UInt8} {width id w pos words : Nat} (hw : 2 ≤ width)
    (hw8 : width ≤ maxAbbrevWidth) (h : BitsAt buf pos (putEnter width id w pos words)) :
    readBits buf width pos = some (1, pos+width) := by
  have hmax : maxAbbrevWidth = 8 := rfl
  have hpow := four_le_two_pow hw
  obtain ⟨hhead, -⟩ := bitsAt_append.mp h
  obtain ⟨hcode, -⟩ := bitsAt_append.mp hhead
  exact readBits_lt_at hcode (by omega) (by omega) (by omega)

theorem blockEnter_at {buf : List UInt8} {width id w pos words : Nat} (hw : 2 ≤ width)
    (hw8 : width ≤ maxAbbrevWidth) (hid : id < 2^32) (h1 : 1 ≤ w) (h8 : w ≤ maxAbbrevWidth)
    (hwords : words < 2^32) (h : BitsAt buf pos (putEnter width id w pos words)) :
    blockEnter buf width none pos =
      some (⟨w, id, bodyPos width id w pos+words*32, []⟩, bodyPos width id w pos) := by
  rw [blockEnter, enterCode_at hw hw8 h]
  simp [readEnterSubblockPayload_at hid h1 h8 hwords h]

/-- A sub-block gets the abbreviations in scope for its id. -/
theorem blockEnter_scope {buf : List UInt8} {width id w pos words : Nat} (hw : 2 ≤ width)
    (hw8 : width ≤ maxAbbrevWidth) (hid : id < 2^32) (h1 : 1 ≤ w) (h8 : w ≤ maxAbbrevWidth)
    (hwords : words < 2^32) (h : BitsAt buf pos (putEnter width id w pos words))
    {spec : Nat → List Abbrev} {info : Blockinfo} (hinfo : InfoTracks spec info)
    (hlen : (spec id).length ≤ abbrevMaxPerBlock) :
    blockEnter buf width (some info) pos =
      some (⟨w, id, bodyPos width id w pos+words*32, spec id⟩, bodyPos width id w pos) := by
  rw [blockEnter, enterCode_at hw hw8 h]
  simp only [Option.bind_eq_bind, Option.bind_some, ne_eq, not_true_eq_false, if_false,
    readEnterSubblockPayload_at hid h1 h8 hwords h]
  by_cases hin : id < blockinfoMaxBlockIds
  · have hi : info id = spec id := by rw [hinfo.1 id hin, List.take_of_length_le hlen]
    rw [if_pos hin, abbrevTableCopy, hi, if_neg (by simpa using hlen)]
    simp
  · rw [if_neg hin, hinfo.2 id (Or.inr (by omega))]

theorem blockSkip_at {buf : List UInt8} {s : Scope} {width id w pos : Nat} {body : BsItems}
    (hw : 2 ≤ width) (hw8 : width ≤ maxAbbrevWidth) (hid : id < 2^32) (h1 : 1 ≤ w)
    (h8 : w ≤ maxAbbrevWidth)
    (hwords : (putItems (s.enter id) w body (bodyPos width id w pos)).length/32 < 2^32)
    (h : BitsAt buf pos (putBlock s width id w body pos)) :
    blockSkip buf width pos = some (pos+(putBlock s width id w body pos).length) := by
  have hin := h.1
  rw [putBlock_length] at hin ⊢
  rw [putBlock] at h
  obtain ⟨hhead, -⟩ := bitsAt_append.mp h
  rw [blockSkip, blockEnter_at hw hw8 hid h1 h8 hwords hhead]
  simp only [Option.bind_eq_bind, Option.bind_some]
  rw [putItems_words _ _ _ (bodyPos_mod width id w pos), bsSeek, if_neg (by omega)]

section NextRecord
variable {buf : List UInt8} {blk : BsBlock} {pos : Nat} (hw : 2 ≤ blk.abbrevWidth)
  (hw8 : blk.abbrevWidth ≤ maxAbbrevWidth) (hend : pos < blk.endPos)
include hw hw8 hend

/-- The abbreviation id is read, and the rest is up to it. -/
theorem readCode_at {code : Nat} {rest : List Bool} (hcode : code < 2^blk.abbrevWidth)
    (h : BitsAt buf pos (putBits blk.abbrevWidth code ++ rest)) :
    ¬ blk.endPos ≤ pos ∧ readBits buf blk.abbrevWidth pos = some (code, pos+blk.abbrevWidth) ∧
      BitsAt buf (pos+blk.abbrevWidth) rest := by
  have hmax : maxAbbrevWidth = 8 := rfl
  obtain ⟨hc, hrest⟩ := bitsAt_append.mp h
  rw [putBits_length] at hrest
  exact ⟨by omega, readBits_lt_at hc (by omega) (by omega) hcode, hrest⟩

theorem nextRecord_end (h : BitsAt buf pos (putEnd blk.abbrevWidth pos)) :
    blockNextRecord buf blk pos =
      some (.stop, blk, pos+(putEnd blk.abbrevWidth pos).length) := by
  obtain ⟨hnot, hcode, -⟩ := readCode_at hw hw8 hend (Nat.two_pow_pos _) h
  have hpad := pad32_length (pos+blk.abbrevWidth)
  rw [blockNextRecord, if_neg hnot, hcode]
  simp [putEnd, ← hpad, Nat.add_assoc]

theorem nextRecord_record {code : Nat} {ops : List Nat} (hc : code < 2^32)
    (hlen : ops.length ≤ recordMaxOps) (hops : ∀ v ∈ ops, v < 2^64)
    (h : BitsAt buf pos (putRecordItem blk.abbrevWidth code ops)) :
    blockNextRecord buf blk pos = some (.record ⟨code, ops, none⟩, blk,
      pos+(putRecordItem blk.abbrevWidth code ops).length) := by
  have hpow := four_le_two_pow hw
  have hcap : recordMaxOps = 1024 := rfl
  obtain ⟨hnot, hcode, hrest⟩ := readCode_at hw hw8 hend (by omega) h
  obtain ⟨hvc, hrest⟩ := bitsAt_append.mp hrest
  obtain ⟨hvn, hvops⟩ := bitsAt_append.mp hrest
  have hvn := readVbr_at hvn (by omega) (by omega) (show ops.length < 2^32 by omega)
  rw [blockNextRecord, if_neg hnot, hcode]
  simp only [Option.bind_eq_bind, Option.bind_some]
  rw [if_neg (by omega), if_neg (by omega), if_neg (by omega), if_pos trivial,
    readVbr_at hvc (by omega) (by omega) hc]
  simp only [Option.bind_some, hvn]
  rw [if_neg (by omega), readOps_at hops _ hvops]
  simp [putRecordItem, Nat.add_assoc]

theorem nextRecord_define {ab : Abbrev} (hl : LegalAbbrev ab)
    (hroom : blk.abbrevs.length < abbrevMaxPerBlock)
    (h : BitsAt buf pos (putDefineItem blk.abbrevWidth ab)) :
    blockNextRecord buf blk pos = some (.define, { blk with abbrevs := blk.abbrevs ++ [ab] },
      pos+(putDefineItem blk.abbrevWidth ab).length) := by
  have hpow := four_le_two_pow hw
  obtain ⟨hnot, hcode, hrest⟩ := readCode_at hw hw8 hend (by omega) h
  rw [blockNextRecord, if_neg hnot, hcode]
  simp [abbrevTableDefine_at hl hroom hrest, putDefineItem, Nat.add_assoc]

theorem nextRecord_abbreviated {s : Scope} (hcur : blk.abbrevs = s.cur) {i : Nat} {r : BsRecord}
    {ab : Abbrev} (hi : 4+i < 2^blk.abbrevWidth) (hc : r.code < 2^32)
    (hlen : r.ops.length ≤ recordMaxOps) (hab : s.cur[i]? = some ab) (hl : LegalAbbrev ab)
    (hf : FitsAbbrev ab r) (h : BitsAt buf pos (putAbbreviatedItem s blk.abbrevWidth i r pos)) :
    blockNextRecord buf blk pos = some (.record r, blk,
      pos+(putAbbreviatedItem s blk.abbrevWidth i r pos).length) := by
  have hget : s.cur.getD i [] = ab := by simp [List.getD_eq_getElem?_getD, hab]
  rw [putAbbreviatedItem, hget] at h ⊢
  obtain ⟨hnot, hcode, hrest⟩ := readCode_at hw hw8 hend hi h
  have hdec := abbrevDecodeRecord_at (hcur ▸ hab) hl hf hc hlen hrest
  rw [blockNextRecord, if_neg hnot, hcode]
  simp only [Option.bind_eq_bind, Option.bind_some]
  rw [if_neg (by omega), if_neg (by omega), if_neg (by omega), if_neg (by omega), hdec]
  simp [Nat.add_assoc]

/-- At a sub-block the cursor stays before its ENTER_SUBBLOCK. -/
theorem nextRecord_block {id w words : Nat} (hid : id < 2^32)
    (h : BitsAt buf pos (putEnter blk.abbrevWidth id w pos words)) :
    blockNextRecord buf blk pos = some (.subblock id, blk, pos) := by
  have hcode := enterCode_at hw hw8 h
  have hin := h.1
  obtain ⟨hhead, -⟩ := bitsAt_append.mp h
  obtain ⟨-, hvbr⟩ := bitsAt_append.mp hhead
  obtain ⟨hvid, -⟩ := bitsAt_append.mp hvbr
  rw [putBits_length] at hvid
  rw [blockNextRecord, if_neg (by omega), hcode]
  simp only [Option.bind_eq_bind, Option.bind_some]
  rw [if_neg (by omega), if_pos trivial, readVbr_at hvid (by omega) (by omega) hid]
  simp only [Option.bind_some]
  rw [Nat.add_sub_cancel, bsSeek, if_neg (by omega)]
  rfl

end NextRecord

/-- What a walk of written items returns. -/
def Walks (buf : List UInt8) (fuel : Nat) (blk : BsBlock) (info : Blockinfo) (target : Option Nat)
    (s : Scope) (items : BsItems) (pos : Nat) : Prop :=
  ∃ out info', walkItems buf fuel blk info target pos =
      some (out, info', pos+(putItems s blk.abbrevWidth items pos).length) ∧
    Agrees buf s blk.abbrevWidth items out ∧ InfoTracks (s.after items).info info'

theorem walkItems_at {buf : List UInt8} (items : BsItems) : ∀ (s : Scope) (blk : BsBlock)
    (info : Blockinfo) (target : Option Nat) (pos fuel : Nat),
    ScopeTracks s blk.abbrevs info target → 2 ≤ blk.abbrevWidth →
    blk.abbrevWidth ≤ maxAbbrevWidth → LegalItems s blk.abbrevWidth items pos → InReach s items →
    BitsAt buf pos (putItems s blk.abbrevWidth items pos) →
    blk.endPos = pos+(putItems s blk.abbrevWidth items pos).length →
    (putItems s blk.abbrevWidth items pos).length ≤ fuel →
    Walks buf fuel blk info target s items pos := by
  induction items with
  | nil =>
    intro s blk info target pos fuel ht hw hw8 hl hr hb hend hfuel
    have hpos := putItems_ne_nil .nil s hw pos
    obtain ⟨fuel, rfl⟩ := Nat.exists_eq_succ_of_ne_zero (show fuel ≠ 0 by omega)
    have hnext := nextRecord_end hw hw8 (show pos < blk.endPos by omega) hb
    exact ⟨.stop blk.abbrevs, info, by rw [walkItems, hnext]; rfl, ht.cur, ht.info⟩
  | record code ops rest ih =>
    intro s blk info target pos fuel ht hw hw8 hl hr hb hend hfuel
    obtain ⟨⟨hc, hlen, hops⟩, hl⟩ := hl
    have hpos := putItems_ne_nil (.record code ops rest) s hw pos
    obtain ⟨fuel, rfl⟩ := Nat.exists_eq_succ_of_ne_zero (show fuel ≠ 0 by omega)
    rw [putItems] at hb
    obtain ⟨hitem, hrest⟩ := bitsAt_append.mp hb
    have hnext := nextRecord_record hw hw8 (show pos < blk.endPos by omega) hc hlen hops hitem
    have hwidth : 2 ≤ (putRecordItem blk.abbrevWidth code ops).length := by
      simp only [putRecordItem, List.length_append, putBits_length]
      omega
    rw [putItems, List.length_append] at hend hfuel
    obtain ⟨out, info', hwalk, hagree, hinfo⟩ := ih _ blk info _ _ fuel
      (ht.record ⟨code, ops, none⟩) hw hw8 hl hr hrest (by omega) (by omega)
    refine ⟨.record ⟨code, ops, none⟩ out, info', ?_, ⟨rfl, hagree⟩, hinfo⟩
    rw [walkItems, hnext]
    simp [hwalk, putItems, Nat.add_assoc]
  | define ab rest ih =>
    intro s blk info target pos fuel ht hw hw8 hl hr hb hend hfuel
    obtain ⟨⟨hab, hroom⟩, hl⟩ := hl
    have hpos := putItems_ne_nil (.define ab rest) s hw pos
    obtain ⟨fuel, rfl⟩ := Nat.exists_eq_succ_of_ne_zero (show fuel ≠ 0 by omega)
    rw [putItems] at hb
    obtain ⟨hitem, hrest⟩ := bitsAt_append.mp hb
    have hnext := nextRecord_define hw hw8 (show pos < blk.endPos by omega) hab
      (by rw [ht.cur]; exact hroom) hitem
    have hwidth : 2 ≤ (putDefineItem blk.abbrevWidth ab).length := by
      simp only [putDefineItem, List.length_append, putBits_length]
      omega
    rw [putItems, List.length_append] at hend hfuel
    obtain ⟨out, info', hwalk, hagree, hinfo⟩ := ih _ { blk with abbrevs := blk.abbrevs ++ [ab] }
      _ _ _ fuel (ht.define hr.1 ab) hw hw8 hl hr.2 hrest (by simpa using hend.trans (by omega))
      (by simp only; omega)
    refine ⟨.define ab out, info', ?_, ⟨rfl, hagree⟩, hinfo⟩
    rw [walkItems, hnext]
    simp [hwalk, putItems, Nat.add_assoc]
  | abbreviated i r rest ih =>
    intro s blk info target pos fuel ht hw hw8 hl hr hb hend hfuel
    obtain ⟨⟨hi, hc, hlen, ab, hab, hlab, hfit⟩, hl⟩ := hl
    have hpos := putItems_ne_nil (.abbreviated i r rest) s hw pos
    obtain ⟨fuel, rfl⟩ := Nat.exists_eq_succ_of_ne_zero (show fuel ≠ 0 by omega)
    rw [putItems] at hb
    obtain ⟨hitem, hrest⟩ := bitsAt_append.mp hb
    have hnext := nextRecord_abbreviated hw hw8 (show pos < blk.endPos by omega) ht.cur hi hc hlen
      hab hlab hfit hitem
    have hwidth : 2 ≤ (putAbbreviatedItem s blk.abbrevWidth i r pos).length := by
      simp only [putAbbreviatedItem, List.length_append, putBits_length]
      omega
    rw [putItems, List.length_append] at hend hfuel
    obtain ⟨out, info', hwalk, hagree, hinfo⟩ := ih _ blk info _ _ fuel
      (ht.record r) hw hw8 hl hr hrest (by omega) (by omega)
    refine ⟨.record r out, info', ?_, ⟨rfl, hagree⟩, hinfo⟩
    rw [walkItems, hnext]
    simp [hwalk, putItems, Nat.add_assoc]
  | block id w body rest ihb ih =>
    intro s blk info target pos fuel ht hw hw8 hl hr hb hend hfuel
    obtain ⟨⟨hout, hid, hw2, hwmax, hcap, hwords, hlb⟩, hl⟩ := hl
    have hpos := putItems_ne_nil (.block id w body rest) s hw pos
    obtain ⟨fuel, rfl⟩ := Nat.exists_eq_succ_of_ne_zero (show fuel ≠ 0 by omega)
    have hlen := putBlock_length s blk.abbrevWidth id w body pos
    have hwhole := putItems_words body (s.enter id) w (bodyPos_mod blk.abbrevWidth id w pos)
    have hfirst : pos+2 ≤ bodyPos blk.abbrevWidth id w pos := by
      have hpad := pad32_length (pos+(putHead blk.abbrevWidth id w).length)
      rw [bodyPos]
      omega
    rw [putItems_block] at hb
    rw [putItems_block, List.length_append] at hend hfuel
    obtain ⟨hblk, hrest⟩ := bitsAt_append.mp hb
    have hskip := blockSkip_at hw hw8 hid (by omega) hwmax hwords hblk
    rw [putBlock] at hblk
    obtain ⟨hent, hbody⟩ := bitsAt_append.mp hblk
    rw [putEnter_length] at hbody
    have hnext := nextRecord_block hw hw8 (show pos < blk.endPos by omega) hid hent
    have htgt : target = none := by rw [ht.target, hout]; rfl
    have henter : blockEnter buf blk.abbrevWidth (if id = 0 then none else some info) pos =
        some (⟨w, id, bodyPos blk.abbrevWidth id w pos+
          (putItems (s.enter id) w body (bodyPos blk.abbrevWidth id w pos)).length, s.info id⟩,
          bodyPos blk.abbrevWidth id w pos) := by
      by_cases h0 : id = 0
      · rw [if_pos h0, blockEnter_at hw hw8 hid (by omega) hwmax hwords hent, hwhole,
          ht.info.2 id (Or.inl h0)]
      · rw [if_neg h0, blockEnter_scope hw hw8 hid (by omega) hwmax hwords hent ht.info hcap, hwhole]
    obtain ⟨inner, info', hwalk, hagree, hinfo⟩ := ihb (s.enter id)
      ⟨w, id, bodyPos blk.abbrevWidth id w pos+
        (putItems (s.enter id) w body (bodyPos blk.abbrevWidth id w pos)).length, s.info id⟩
      info _ (bodyPos blk.abbrevWidth id w pos) fuel
      (scopeTracks_enter ht.info id) hw2 hwmax hlb hr.1 hbody rfl (by simp only; omega)
    obtain ⟨out, info'', hwalk', hagree', hinfo'⟩ := ih
      { s with info := ((s.enter id).after body).info } blk info' none _ fuel
      ⟨ht.cur, hinfo, by rw [hout]; rfl, ht.outside⟩ hw hw8 hl hr.2 hrest (by omega) (by omega)
    refine ⟨.block id pos (pos+(putBlock s blk.abbrevWidth id w body pos).length) inner out, info'',
      ?_, ⟨rfl, hskip, hagree, hagree'⟩, hinfo'⟩
    rw [walkItems, hnext, htgt]
    simp only [henter, Option.bind_eq_bind, Option.bind_some, hwalk]
    rw [← hlen, hwalk', Option.bind_some, putItems_block, List.length_append, Nat.add_assoc]

/-- A walk of the block at `pos` gives back its items, and a skip ends where it does. -/
def WalkInverts (buf : List UInt8) (width pos id w : Nat) (body : BsItems) : Prop :=
  ∃ out, walkTree buf width pos =
      some (out, pos+(putBlock .empty width id w body pos).length) ∧
    Agrees buf (Scope.empty.enter id) w body out ∧
    blockSkip buf width pos = some (pos+(putBlock .empty width id w body pos).length)

/-- The block reader inverts the bitstream encoding. -/
theorem bitstream_walk_inverts (buf : List UInt8) (width pos id w : Nat) (body : BsItems)
    (hw : 2 ≤ width) (hw8 : width ≤ maxAbbrevWidth)
    (hl : LegalItems .empty width (.block id w body .nil) pos)
    (hr : InReach .empty (.block id w body .nil))
    (h : BitsAt buf pos (putBlock .empty width id w body pos)) :
    WalkInverts buf width pos id w body := by
  obtain ⟨⟨-, hid, hw2, hwmax, hcap, hwords, hlb⟩, -⟩ := hl
  have hskip := blockSkip_at hw hw8 hid (by omega) hwmax hwords h
  have hlen := putBlock_length .empty width id w body pos
  have hin := h.1
  have hwhole := putItems_words body (Scope.empty.enter id) w (bodyPos_mod width id w pos)
  have hinfo : InfoTracks Scope.empty.info (fun _ => []) := ⟨fun id _ => rfl, fun id _ => rfl⟩
  rw [putBlock] at h
  obtain ⟨hent, hbody⟩ := bitsAt_append.mp h
  rw [putEnter_length] at hbody
  have henter := blockEnter_scope hw hw8 hid (by omega) hwmax hwords hent hinfo hcap
  obtain ⟨out, info', hwalk, hagree, -⟩ := walkItems_at body (Scope.empty.enter id)
    ⟨w, id, bodyPos width id w pos+
      (putItems (Scope.empty.enter id) w body (bodyPos width id w pos)).length, []⟩
    (fun _ => []) _ (bodyPos width id w pos) (8*buf.length+1)
    (scopeTracks_enter hinfo id) hw2 hwmax hlb hr.1 hbody rfl (by simp only; omega)
  refine ⟨out, ?_, hagree, hskip⟩
  rw [walkTree, henter, hwhole]
  simp only [Option.bind_eq_bind, Option.bind_some]
  rw [show Scope.empty.info id = [] from rfl, hwalk, Option.bind_some, hlen]

/-- BLOCKINFO defines an abbreviation for blocks of id 12, which has an array; the block
uses it and one of its own with a blob. -/
def scopedBody : BsItems :=
  .block 0 2 (.record 1 [12] (.define [.literal 7, .fixed 4, .array, .char6] .nil))
    (.block 12 3 (.abbreviated 0 ⟨7, [5, 97, 95], none⟩
      (.define [.fixed 3, .blob] (.abbreviated 1 ⟨2, [], some [0xaa, 0xbb, 0xcc]⟩ .nil))) .nil)

def scopedStream : List UInt8 := [33, 12, 0, 0, 11, 0, 0, 0, 1, 16, 0, 0, 2, 0, 0, 0, 7, 1, 35, 121,
  32, 196, 16, 0, 97, 24, 0, 0, 4, 0, 0, 0, 44, 1, 248, 37, 100, 104, 53, 0, 170, 187, 204, 0,
  0, 0, 0, 0, 0, 0, 0, 0]

theorem bitstream_walk_inverts_scoped : WalkInverts scopedStream 2 0 8 3 scopedBody := by
  have hbits : putBlock .empty 2 8 3 scopedBody 0 =
      (List.range 416).map fun i => bitAt scopedStream (0+i) := by decide +kernel
  refine bitstream_walk_inverts scopedStream 2 0 8 3 scopedBody (by decide) (by decide) ?_ ?_
    (hbits ▸ bitsAt_range (by decide))
  · refine ⟨⟨rfl, by decide, by decide, by decide, by decide, by decide +kernel, ?_⟩, trivial⟩
    refine ⟨⟨rfl, by decide, by decide, by decide, by decide, by decide +kernel, ?_⟩, ?_⟩
    · refine ⟨⟨by decide, by decide, by decide⟩, ⟨?_, by decide⟩, trivial⟩
      simp [LegalAbbrev, LegalTail, AbbrevOp.Scalar, abbrevMaxOps]
    · refine ⟨⟨rfl, by decide, by decide, by decide, by decide, by decide +kernel, ?_⟩, trivial⟩
      refine ⟨⟨by decide, by decide, by decide, _, rfl, ?_, ?_⟩, ⟨?_, by decide⟩,
        ⟨by decide, by decide, by decide, _, rfl, ?_, ?_⟩, trivial⟩
      · simp [LegalAbbrev, LegalTail, AbbrevOp.Scalar, abbrevMaxOps]
      · refine ⟨rfl, show 5 < 2^4 by decide, ?_, rfl⟩
        intro v hv
        simp only [List.mem_cons, List.not_mem_nil, or_false] at hv
        obtain rfl | rfl := hv
        · exact ⟨0, by decide, rfl⟩
        · exact ⟨63, by decide, rfl⟩
      · simp [LegalAbbrev, LegalTail, AbbrevOp.Scalar, abbrevMaxOps]
      · simp [LegalAbbrev, LegalTail, AbbrevOp.Scalar, abbrevMaxOps]
      · exact ⟨show 2 < 2^3 by decide, rfl, _, rfl, by decide⟩
  · refine ⟨⟨⟨?_, trivial⟩, ⟨?_, trivial⟩, trivial⟩, trivial⟩
    · rintro t ⟨⟩
      decide
    · rintro t ⟨⟩

/-- An abbreviation for blocks of id `t`, and such a block that uses it. -/
def targetBody (t code v : Nat) : BsItems :=
  .block 0 2 (.record 1 [t] (.define [.literal code, .fixed 4] .nil))
    (.block t 3 (.abbreviated 0 ⟨code, [v], none⟩ .nil) .nil)

def farStream : List UInt8 := [33, 12, 0, 0, 8, 0, 0, 0, 1, 16, 0, 0, 2, 0, 0, 0, 7, 1, 24, 40,
  30, 8, 1, 0, 1, 25, 0, 0, 1, 0, 0, 0, 44, 0, 0, 0, 0, 0, 0, 0]

def selfStream : List UInt8 := [33, 12, 0, 0, 8, 0, 0, 0, 1, 16, 0, 0, 2, 0, 0, 0, 7, 1, 160, 24,
  32, 4, 0, 0, 1, 24, 0, 0, 1, 0, 0, 0, 92, 0, 0, 0, 0, 0, 0, 0]

/-- A legal stream whose BLOCKINFO is for block id 32, or for id 0, is not read back. -/
theorem blockinfo_target_out_of_reach :
    (LegalItems .empty 2 (.block 8 3 (targetBody 32 7 5) .nil) 0 ∧
      BitsAt farStream 0 (putBlock .empty 2 8 3 (targetBody 32 7 5) 0) ∧
      ¬ WalkInverts farStream 2 0 8 3 (targetBody 32 7 5)) ∧
    LegalItems .empty 2 (.block 8 3 (targetBody 0 1 11) .nil) 0 ∧
      BitsAt selfStream 0 (putBlock .empty 2 8 3 (targetBody 0 1 11) 0) ∧
      ¬ WalkInverts selfStream 2 0 8 3 (targetBody 0 1 11) := by
  have hfar : walkTree farStream 2 0 = none := by decide +kernel
  have hself : walkTree selfStream 2 0 = none := by decide +kernel
  have hfarBits : putBlock .empty 2 8 3 (targetBody 32 7 5) 0 =
      (List.range 320).map fun i => bitAt farStream (0+i) := by decide +kernel
  have hselfBits : putBlock .empty 2 8 3 (targetBody 0 1 11) 0 =
      (List.range 320).map fun i => bitAt selfStream (0+i) := by decide +kernel
  refine ⟨⟨?_, hfarBits ▸ bitsAt_range (by decide), ?_⟩, ?_, hselfBits ▸ bitsAt_range (by decide), ?_⟩
  · refine ⟨⟨rfl, by decide, by decide, by decide, by decide, by decide +kernel, ?_⟩, trivial⟩
    refine ⟨⟨rfl, by decide, by decide, by decide, by decide, by decide +kernel, ?_⟩,
      ⟨rfl, by decide, by decide, by decide, by decide, by decide +kernel, ?_⟩, trivial⟩
    · refine ⟨⟨by decide, by decide, by decide⟩, ⟨?_, by decide⟩, trivial⟩
      simp [LegalAbbrev, LegalTail, AbbrevOp.Scalar, abbrevMaxOps]
    · refine ⟨⟨by decide, by decide, by decide, [.literal 7, .fixed 4], rfl, ?_, ?_⟩, trivial⟩
      · simp [LegalAbbrev, LegalTail, AbbrevOp.Scalar, abbrevMaxOps]
      · exact ⟨rfl, show 5 < 2^4 by decide, rfl, rfl⟩
  · rintro ⟨out, h, -⟩
    rw [hfar] at h
    cases h
  · refine ⟨⟨rfl, by decide, by decide, by decide, by decide, by decide +kernel, ?_⟩, trivial⟩
    refine ⟨⟨rfl, by decide, by decide, by decide, by decide, by decide +kernel, ?_⟩,
      ⟨rfl, by decide, by decide, by decide, by decide, by decide +kernel, ?_⟩, trivial⟩
    · refine ⟨⟨by decide, by decide, by decide⟩, ⟨?_, by decide⟩, trivial⟩
      simp [LegalAbbrev, LegalTail, AbbrevOp.Scalar, abbrevMaxOps]
    · refine ⟨⟨by decide, by decide, by decide, [.literal 1, .fixed 4], rfl, ?_, ?_⟩, trivial⟩
      · simp [LegalAbbrev, LegalTail, AbbrevOp.Scalar, abbrevMaxOps]
      · exact ⟨rfl, show 11 < 2^4 by decide, rfl, rfl⟩
  · rintro ⟨out, h, -⟩
    rw [hself] at h
    cases h

end Lagfx
