import Lagfx.BitstreamTree
import Lagfx.BitcodeStale
import Lagfx.BitcodeProgress
import Lagfx.BitcodeBodyRead

/-! Function bodies: which FUNCTION_BLOCK goes to which function, and when opening the
function later reads the records of that block. -/
namespace Lagfx
open ByteMemory Bits Machine

variable {env : ReaderEnv} {buf : List UInt8} {m m' m'' : AirModule} {s t : Reader}

/- The bits of an ENTER_SUBBLOCK tell the width of its code. -/

theorem readBits_bit {n v pos p i : Nat} (h : readBits buf n pos = some (v, p)) (hi : i < n) :
    v.testBit i = bitAt buf (pos+i) := by
  simp only [readBits] at h
  split_ifs at h with hn hend
  cases h
  rw [Nat.testBit_mod_two_pow, Nat.testBit_shiftRight, leNat_testBit, bitAt_window buf (by omega),
    decide_eq_true hi, Bool.true_and]
  congr 1
  omega

theorem vbrLoop_low {n limit : Nat} (hn : 2 ≤ n) {val shift pos v p i : Nat}
    (h : vbrLoop buf n limit hn val shift pos = some (v, p)) (hi : i < shift) :
    v.testBit i = val.testBit i := by
  induction val, shift, pos using vbrLoop.induct buf n limit hn with
  | case1 val shift pos hread =>
    rw [vbrLoop, hread] at h
    cases h
  | case2 val shift pos chunk pos' hread hlast =>
    rw [vbrLoop, hread] at h
    simp only [if_pos hlast] at h
    cases h
    rw [Nat.testBit_or, Nat.testBit_mod_two_pow, Nat.testBit_shiftLeft]
    simp [Nat.not_le.2 hi]
  | case3 val shift pos chunk pos' hread hmore hover =>
    rw [vbrLoop, hread] at h
    simp only [if_neg hmore, if_pos hover] at h
    cases h
  | case4 val shift pos chunk pos' hread val' hmore hover ih =>
    rw [vbrLoop, hread] at h
    simp only [if_neg hmore, if_neg hover] at h
    rw [ih h (by omega), Nat.testBit_or, Nat.testBit_mod_two_pow, Nat.testBit_shiftLeft]
    simp [Nat.not_le.2 hi]

/-- The low bits of a VBR word are those of its first chunk. -/
theorem readVbr_bit {n v pos p i : Nat} (h : readVbr buf n pos = some (v, p)) (hi : i < n-1) :
    v.testBit i = bitAt buf (pos+i) := by
  simp only [readVbr, readVbrOf] at h
  split_ifs at h with hn
  rw [vbrLoop] at h
  split at h
  · cases h
  · rename_i chunk pos' hread
    have hval : (0 ||| (chunk%2^(n-1)) <<< 0 % 2^32).testBit i = bitAt buf (pos+i) := by
      have hi32 : i < 32 := by omega
      rw [Nat.zero_or, Nat.shiftLeft_zero, Nat.testBit_mod_two_pow, Nat.testBit_mod_two_pow,
        decide_eq_true hi32, decide_eq_true hi, Bool.true_and, Bool.true_and]
      exact readBits_bit hread (by omega)
    simp only at h
    split_ifs at h with hlast hover
    · cases h
      exact hval
    · rw [vbrLoop_low hn.1 h (by omega), hval]

theorem blockEnter_bits {width pos first : Nat} {info : Option Blockinfo} {blk : BsBlock}
    (h : blockEnter buf width info pos = some (blk, first)) : 0 < width ∧
    (∀ i, i < width → Nat.testBit 1 i = bitAt buf (pos+i)) ∧
    ∀ i, i < 7 → blk.blockId.testBit i = bitAt buf (pos+width+i) := by
  simp only [blockEnter, Option.bind_eq_bind] at h
  obtain ⟨⟨code, p₁⟩, h₁, h⟩ := Option.bind_eq_some_iff.1 h
  simp only at h
  split_ifs at h with hcode
  obtain ⟨⟨sub, p₂⟩, h₂, h⟩ := Option.bind_eq_some_iff.1 h
  have hpos : 0 < width ∧ p₁ = pos+width := by
    simp only [readBits] at h₁
    split_ifs at h₁ with hn
    cases h₁
    exact ⟨by omega, rfl⟩
  have hid : ∃ p, readVbr buf 8 p₁ = some (sub.blockId, p) := by
    simp only [readEnterSubblockPayload, Option.bind_eq_bind] at h₂
    obtain ⟨⟨id, q₁⟩, g₁, h₂⟩ := Option.bind_eq_some_iff.1 h₂
    obtain ⟨⟨w, q₂⟩, g₂, h₂⟩ := Option.bind_eq_some_iff.1 h₂
    simp only at h₂
    split_ifs at h₂
    obtain ⟨⟨words, q₃⟩, g₃, h₂⟩ := Option.bind_eq_some_iff.1 h₂
    cases h₂
    exact ⟨q₁, g₁⟩
  have hblk : blk.blockId = sub.blockId := by
    cases info with
    | none => cases h; rfl
    | some info =>
      simp only at h
      split_ifs at h
      · obtain ⟨abbrevs, -, h⟩ := Option.bind_eq_some_iff.1 h
        cases h
        rfl
      · cases h
        rfl
  obtain ⟨p, hid⟩ := hid
  refine ⟨hpos.1, fun i hi => ?_, fun i hi => ?_⟩
  · rw [← readBits_bit h₁ hi, not_not.1 hcode]
  · rw [hblk, readVbr_bit hid hi, hpos.2]

/-- A FUNCTION_BLOCK is entered with one width only: with another one its code and its id
are not 1 and 12. -/
theorem blockEnter_width {w w' pos first first' : Nat} {info info' : Option Blockinfo}
    {blk blk' : BsBlock} (h : blockEnter buf w info pos = some (blk, first))
    (h' : blockEnter buf w' info' pos = some (blk', first')) (hid : blk.blockId = 12)
    (hid' : blk'.blockId = 12) : w = w' := by
  have hle : ∀ {w w' : Nat} {first first' : Nat} {info info' : Option Blockinfo}
      {blk blk' : BsBlock}, blockEnter buf w info pos = some (blk, first) →
      blockEnter buf w' info' pos = some (blk', first') → blk.blockId = 12 → blk'.blockId = 12 →
      ¬ w < w' := by
    intro w w' first first' info info' blk blk' h h' hid hid' hlt
    obtain ⟨h0, -, hblk⟩ := blockEnter_bits h
    obtain ⟨h0', hcode, hblk'⟩ := blockEnter_bits h'
    -- bit 2 of the id 12 is set; `w'` puts that bit in its code or in the low bits of its id
    have hset := hblk 2 (by omega)
    rw [hid] at hset
    rcases Nat.lt_or_ge (w+2) w' with hin | hout
    · have hclear := hcode (w+2) hin
      have hone : Nat.testBit 1 (w+2) = false :=
        Bool.eq_false_iff.2 (Nat.testBit_one_eq_true_iff_self_eq_zero.not.2 (by omega))
      rw [Nat.add_assoc, ← hclear, hone] at hset
      exact absurd hset (by decide)
    · have hclear := hblk' (w+2-w') (by omega)
      rw [hid', show pos+w'+(w+2-w') = pos+w+2 by omega, ← hset] at hclear
      rcases (show w+2-w' = 0 ∨ w+2-w' = 1 by omega) with h01 | h01
      · rw [h01] at hclear
        exact absurd hclear (by decide)
      · rw [h01] at hclear
        exact absurd hclear (by decide)
  have h₁ := hle h h' hid hid'
  have h₂ := hle h' h hid' hid
  omega

/- Opening a function. -/

/-- A FUNCTION_BLOCK of MODULE: the bits it goes from and to, the width of the codes around
it, and what BLOCKINFO has for it when the walk is there. -/
structure BodySpan where
  width : Nat
  start : Nat
  stop : Nat
  abbrevs : List Abbrev
deriving DecidableEq, Repr

/-- The block that starts there is a FUNCTION_BLOCK, and `recs` are its records. -/
def BodySpan.Records (buf : List UInt8) (sp : BodySpan) (recs : List BsRecord) : Prop :=
  ∃ blk first, blockEnter buf sp.width none sp.start = some (blk, first) ∧ blk.blockId = 12 ∧
    BlockRecords buf { blk with abbrevs := sp.abbrevs } first recs

/- What a writer puts into a block. -/

def BsItems.records : BsItems → List BsRecord
  | .nil => []
  | .record code ops rest => ⟨code, ops, none⟩::rest.records
  | .define _ rest => rest.records
  | .abbreviated _ r rest => r::rest.records
  | .block _ _ _ rest => rest.records

/-- The reader sees the records that were written. -/
theorem blockRecords_of_put (items : BsItems) : ∀ (sc : Scope) (blk : BsBlock) (pos : Nat),
    sc.inInfo = false → sc.target = none → blk.abbrevs = sc.cur → 2 ≤ blk.abbrevWidth →
    blk.abbrevWidth ≤ maxAbbrevWidth → LegalItems sc blk.abbrevWidth items pos →
    BitsAt buf pos (putItems sc blk.abbrevWidth items pos) →
    pos+(putItems sc blk.abbrevWidth items pos).length ≤ blk.endPos →
    BlockRecords buf blk pos items.records := by
  have hkeep : ∀ (sc : Scope) (r : BsRecord), sc.inInfo = false → sc.record r = sc := by
    intro sc r hout
    rw [Scope.record]
    split
    · rfl
    · rw [hout]
      rfl
  induction items with
  | nil =>
    intro sc blk pos hout htgt hcur hw hw8 hl hb hend
    have hpos := putItems_ne_nil .nil sc hw pos
    exact .stop (nextRecord_end hw hw8 (by omega) hb)
  | record code ops rest ih =>
    intro sc blk pos hout htgt hcur hw hw8 hl hb hend
    have hpos := putItems_ne_nil (.record code ops rest) sc hw pos
    have hlt : pos < blk.endPos := by omega
    obtain ⟨⟨hc, hlen, hops⟩, hl⟩ := hl
    rw [putItems, hkeep sc _ hout] at hb hend
    rw [hkeep sc _ hout] at hl
    obtain ⟨hitem, hrest⟩ := bitsAt_append.mp hb
    rw [List.length_append] at hend
    exact .record (nextRecord_record hw hw8 hlt hc hlen hops hitem)
      (ih sc blk _ hout htgt hcur hw hw8 hl hrest (by omega))
  | define ab rest ih =>
    intro sc blk pos hout htgt hcur hw hw8 hl hb hend
    have hpos := putItems_ne_nil (.define ab rest) sc hw pos
    have hlt : pos < blk.endPos := by omega
    have hdefine : sc.define ab = { sc with cur := sc.cur ++ [ab] } := by rw [Scope.define, htgt]
    obtain ⟨⟨hab, hroom⟩, hl⟩ := hl
    rw [putItems, hdefine] at hb hend
    rw [hdefine] at hl
    obtain ⟨hitem, hrest⟩ := bitsAt_append.mp hb
    rw [List.length_append] at hend
    exact .define (nextRecord_define hw hw8 hlt hab (by rw [hcur]; exact hroom) hitem)
      (ih { sc with cur := sc.cur ++ [ab] } { blk with abbrevs := blk.abbrevs ++ [ab] } _ hout htgt
        (by rw [hcur]) hw hw8 hl hrest (by simp only; omega))
  | abbreviated i r rest ih =>
    intro sc blk pos hout htgt hcur hw hw8 hl hb hend
    have hpos := putItems_ne_nil (.abbreviated i r rest) sc hw pos
    have hlt : pos < blk.endPos := by omega
    obtain ⟨⟨hi, hc, hlen, ab, hab, hlab, hfit⟩, hl⟩ := hl
    rw [putItems, hkeep sc _ hout] at hb hend
    rw [hkeep sc _ hout] at hl
    obtain ⟨hitem, hrest⟩ := bitsAt_append.mp hb
    rw [List.length_append] at hend
    exact .record (nextRecord_abbreviated hw hw8 hlt hcur hi hc hlen hab hlab hfit hitem)
      (ih sc blk _ hout htgt hcur hw hw8 hl hrest (by omega))
  | block id w body rest ihb ih =>
    intro sc blk pos hout htgt hcur hw hw8 hl hb hend
    have hpos := putItems_ne_nil (.block id w body rest) sc hw pos
    obtain ⟨⟨-, hid, hw2, hwmax, hcap, hwords, hlb⟩, hl⟩ := hl
    have hlt : pos < blk.endPos := by omega
    rw [putItems_block] at hb hend
    obtain ⟨hblk, hrest⟩ := bitsAt_append.mp hb
    rw [List.length_append] at hend
    have hskip := blockSkip_at hw hw8 hid (by omega) hwmax hwords hblk
    rw [putBlock] at hblk
    obtain ⟨hent, -⟩ := bitsAt_append.mp hblk
    exact .subblock (nextRecord_block hw hw8 hlt hid hent) hskip
      (ih { sc with info := ((sc.enter id).after body).info } blk _ hout htgt hcur hw hw8 hl hrest
        (by omega))

/-- A FUNCTION_BLOCK that a writer put there, with the abbreviations of `sc` in scope. -/
theorem records_of_put {sc : Scope} {sp : BodySpan} {w : Nat} {body : BsItems}
    (hw : 2 ≤ sp.width) (hw8 : sp.width ≤ maxAbbrevWidth) (habbrevs : sc.info 12 = sp.abbrevs)
    (hl : LegalItems sc sp.width (.block 12 w body .nil) sp.start)
    (h : BitsAt buf sp.start (putBlock sc sp.width 12 w body sp.start)) :
    sp.Records buf body.records := by
  obtain ⟨⟨hout, hid, hw2, hwmax, hcap, hwords, hlb⟩, -⟩ := hl
  have hwhole := putItems_words body (sc.enter 12) w (bodyPos_mod sp.width 12 w sp.start)
  rw [putBlock] at h
  obtain ⟨hent, hbody⟩ := bitsAt_append.mp h
  rw [putEnter_length] at hbody
  have henter := blockEnter_at hw hw8 hid (by omega) hwmax hwords hent
  refine ⟨_, _, henter, rfl, ?_⟩
  exact blockRecords_of_put body (sc.enter 12) _ _ rfl rfl (by rw [← habbrevs]; rfl) hw2 hwmax hlb hbody
    (by simp only; omega)

/-- Memory suffices to open `fn`. -/
def OpenSuffices (env : ReaderEnv) (m : AirModule) (fn : AirFunction) : Prop :=
  startBody env m fn ≠ .error .outOfMemory ∧
    ∀ s, startBody env m fn = .ok s → Suffices env m.blockinfo m.bitstream s

theorem finishBody_decodes {b : AirBody} {recs : List BsRecord} (h : b.Decodes recs) :
    (finishBody b).Decodes recs := by
  refine ⟨?_, h.blocks, fun i r hr => ?_⟩
  · simp only [finishBody, AirBody.store, List.length_map]
    exact h.len
  · obtain ⟨inst, hinst, hc⟩ := h.each i r hr
    refine ⟨{ inst with ops := ptrUnlessZero b.arena inst.opsOff }, ?_, hc.raw, hc.code, hc.num, hc.ops⟩
    simp only [finishBody, AirBody.store, List.getElem?_map, hinst]
    rfl

/-- Before the loop nothing is read yet. -/
theorem startBody_ok {fn : AirFunction} {s : BodyReader} (h : startBody env m fn = .ok s) :
    (∃ blk, blockEnter m.bitstream parentAbbrevWidth (some m.blockinfo) fn.bodyOffset =
        some (blk, s.pos) ∧ blk.blockId = 12 ∧ s.blk = blk) ∧
      s.constants = none ∧ s.b.insts = [] ∧ s.b.numBlocks = 0 ∧ 0 < s.b.arena.used := by
  rw [startBody] at h
  by_cases hgrant : env.grants 0 = false ∨ env.grants 1 = false
  · rw [if_pos hgrant] at h
    cases h
  rw [if_neg hgrant] at h
  split at h
  · cases h
  · rename_i pos hseek
    have hpos := (bsSeek_some hseek).1
    split at h
    · cases h
    · rename_i blk first henter
      rw [hpos] at henter
      simp only at h
      split_ifs at h with hid h0
      cases h
      refine ⟨⟨blk, henter, not_not.1 hid, rfl⟩, rfl, rfl, rfl, ?_⟩
      rcases (arenaReserve_cases env (Arena.init (4*1024) 2) (sizeofAirInst*maxInsts)).1 with
        ⟨hz, -⟩ | ⟨-, hused⟩
      · exact absurd hz h0
      · rw [hused]
        exact Nat.add_pos_right _ (by decide)

theorem startBody_not_oom {fn : AirFunction} {blk : BsBlock} {first : Nat}
    (hne : startBody env m fn ≠ .error .outOfMemory) (hid : blk.blockId = 12)
    (he : blockEnter m.bitstream parentAbbrevWidth (some m.blockinfo) fn.bodyOffset =
      some (blk, first)) : ∃ s, startBody env m fn = .ok s := by
  have hseek : bsSeek m.bitstream fn.bodyOffset = some fn.bodyOffset := by
    have hle : fn.bodyOffset ≤ 8*m.bitstream.length := by
      simp only [blockEnter, Option.bind_eq_bind] at he
      obtain ⟨⟨code, p₁⟩, h₁, -⟩ := Option.bind_eq_some_iff.1 he
      have hm := readBits_moves h₁
      exact Nat.le_trans (Nat.le_of_lt hm.1.1) hm.1.2
    rw [bsSeek, if_neg (Nat.not_lt.2 hle)]
  rw [startBody] at hne ⊢
  by_cases hgrant : env.grants 0 = false ∨ env.grants 1 = false
  · rw [if_pos hgrant] at hne
    exact absurd rfl hne
  · rw [if_neg hgrant] at hne ⊢
    simp only [hseek, he, hid, ne_eq, not_true_eq_false, if_false] at hne ⊢
    split_ifs at hne ⊢ with h0
    · exact absurd rfl hne
    · exact ⟨_, rfl⟩

theorem instRecord_insts {b b' : AirBody} {r : BsRecord} (h : instRecord env b r = some b') :
    b'.insts.length = b.insts.length+1 := by
  simp only [instRecord] at h
  split_ifs at h
  · cases h
    simp only [AirBody.pushInst, AirBody.store, List.length_append, List.length_singleton]
  · cases h
    simp only [AirBody.pushInst, AirBody.store, AirBody.put, AirBody.refresh, AirBody.reserve,
      List.length_append, List.length_singleton]

/-- There are never more instructions than places. -/
theorem bodyStep_insts {info : Blockinfo} {s t : BodyReader} (hs : s.b.insts.length ≤ maxInsts)
    (h : bodyStep env info buf s = .inl t) : t.b.insts.length ≤ maxInsts := by
  cases hc : s.constants with
  | some walk =>
    obtain ⟨t', ht', -, hk, -⟩ := localConstantsStep_cases env info buf hc
    rw [h] at ht'
    cases ht'
    rw [hk.insts]
    exact hs
  | none =>
    simp only [bodyStep, hc] at h
    by_cases hin : s.blk.endPos ≤ s.pos
    · rw [if_pos hin] at h
      cases h
    rw [if_neg hin] at h
    cases hnext : blockNextRecord buf s.blk s.pos with
    | none => rw [hnext] at h; cases h
    | some next =>
      obtain ⟨ev, blk, p⟩ := next
      rw [hnext] at h
      cases ev with
      | stop => cases h
      | define => cases h; exact hs
      | subblock id =>
        simp only [bodySubblock] at h
        by_cases hid : id = 11
        · rw [if_pos hid] at h
          split at h
          · cases h
          · split_ifs at h
            cases h
            exact hs
        · rw [if_neg hid] at h
          split at h
          · cases h
          · cases h
            exact hs
      | record r =>
        simp only at h
        split_ifs at h with hroom
        cases hr : instRecord env s.b r with
        | none => rw [hr] at h; cases h
        | some b =>
          rw [hr] at h
          cases h
          rw [instRecord_insts hr]
          omega

/-- What a body that was opened says of the function: its bits are a FUNCTION_BLOCK in a
block of width 3, and it has no more records than there are places. -/
theorem opened_body {modEnv : ReaderEnv} {i : Nat} {b : AirBody} {f : AirFunction}
    (hf : m.functionAt i = some f) (h : OpensBody modEnv env m i (.ok b)) :
    (∃ blk first, blockEnter m.bitstream parentAbbrevWidth (some m.blockinfo) f.bodyOffset =
      some (blk, first) ∧ blk.blockId = 12) ∧ b.insts.length ≤ maxInsts := by
  obtain ⟨n, hn⟩ := h
  have hload : m.loadFunction modEnv i = f := by rw [AirModule.loadFunction, hf]; rfl
  simp only [airFunctionBodyOpen, hload] at hn
  split_ifs at hn
  · cases hn
  · cases hn
  · split at hn
    · cases hn
    · rename_i s hstart
      obtain ⟨⟨blk, he, hid, -⟩, hc, hnil, -⟩ := startBody_ok hstart
      refine ⟨⟨blk, s.pos, he, hid⟩, ?_⟩
      split at hn
      · cases hn
      · cases hn
      · rename_i b' hrun
        cases hn
        obtain ⟨e, hreach, hlast⟩ := Returns.last ⟨n, hrun⟩
        have hle := hreach.inv (I := fun u => u.b.insts.length ≤ maxInsts)
          (fun _ _ hu hst => bodyStep_insts hu hst) (by rw [hnil]; exact Nat.zero_le _)
        simp only [finishBody, AirBody.store, List.length_map]
        rw [bodyStep_finished hlast]
        exact hle

/-- Opening a function whose bits are those of a FUNCTION_BLOCK in a block of width 3. -/
theorem opens_body {modEnv : ReaderEnv} {i : Nat} {f : AirFunction} {sp : BodySpan}
    {recs : List BsRecord} (hi : Installable m.blockinfo) (hin : i < m.numFunctions)
    (hf : m.functionAt i = some f) (hproto : f.isProto = false) (h0 : f.bodyOffset ≠ 0)
    (hlen : f.bodyLength ≠ 0) (hstart : f.bodyOffset = sp.start) (hr : sp.Records m.bitstream recs)
    (hwidth : sp.width = parentAbbrevWidth) (habbrevs : m.blockinfo 12 = sp.abbrevs)
    (hcap : recs.length ≤ maxInsts) (hmem : OpenSuffices env m f) :
    ∃ b, OpensBody modEnv env m i (.ok b) ∧ b.Decodes recs := by
  obtain ⟨blk, first, henter, hid, hrecs⟩ := hr
  have hinfo := blockEnter_installable hi henter
  have htable : m.blockinfo blk.blockId = sp.abbrevs := by rw [hid, habbrevs]
  rw [if_pos (by rw [hid]; decide), htable, hwidth, ← hstart] at hinfo
  obtain ⟨s, hs⟩ := startBody_not_oom hmem.1 (by exact hid) hinfo
  obtain ⟨⟨blk', he, -, hblk⟩, hc, hnil, hnum, hused⟩ := startBody_ok hs
  rw [hinfo] at he
  cases he
  have hread : ReadSo s.b [] := by
    refine ⟨⟨by rw [hnil]; rfl, by rw [hnum]; rfl, fun i r hr => by cases hr⟩, fun inst hinst => ?_⟩
    rw [hnil] at hinst
    cases hinst
  obtain ⟨b, ⟨n, hrun⟩, hb⟩ := body_reads hi hrecs hblk rfl hc hread hused
    (by simpa using hcap) (hmem.2 s hs)
  refine ⟨finishBody b, ⟨n, ?_⟩, finishBody_decodes hb.decodes⟩
  have hload : m.loadFunction modEnv i = f := by rw [AirModule.loadFunction, hf]; rfl
  simp only [airFunctionBodyOpen, if_neg (Nat.not_le.2 hin), hload]
  rw [if_neg (by simp [hproto, h0, hlen]), hs]
  simp only [hrun]

end Lagfx
