import Lagfx.BitcodeEffects
import Lagfx.BitcodeBody

/-! What the reader of a function body decodes: the records of its block, over the sub-blocks
in it. -/
namespace Lagfx
open ByteMemory Bits Machine

variable {env : ReaderEnv} {buf : List UInt8} {b b' b'' : AirBody}

/-- The records of a block from `pos` to its end, in order. Sub-blocks are passed over. -/
inductive BlockRecords (buf : List UInt8) : BsBlock → Nat → List BsRecord → Prop
  | stop {blk blk' : BsBlock} {pos p : Nat}
    (h : blockNextRecord buf blk pos = some (.stop, blk', p)) : BlockRecords buf blk pos []
  | record {blk blk' : BsBlock} {pos p : Nat} {r : BsRecord} {recs : List BsRecord}
    (h : blockNextRecord buf blk pos = some (.record r, blk', p))
    (hrest : BlockRecords buf blk' p recs) : BlockRecords buf blk pos (r::recs)
  | define {blk blk' : BsBlock} {pos p : Nat} {recs : List BsRecord}
    (h : blockNextRecord buf blk pos = some (.define, blk', p))
    (hrest : BlockRecords buf blk' p recs) : BlockRecords buf blk pos recs
  | subblock {blk blk' : BsBlock} {pos p id stop : Nat} {recs : List BsRecord}
    (h : blockNextRecord buf blk pos = some (.subblock id, blk', p))
    (hskip : blockSkip buf blk'.abbrevWidth p = some stop)
    (hrest : BlockRecords buf blk' stop recs) : BlockRecords buf blk pos recs

def BsRecord.Declares (r : BsRecord) : Prop := r.code = 1 ∧ r.ops ≠ []

instance (r : BsRecord) : Decidable r.Declares := inferInstanceAs (Decidable (_ ∧ _))

/-- The operand of the last DECLAREBLOCKS record. -/
def declaredBlocks (recs : List BsRecord) : Nat :=
  match (recs.filter fun r => decide r.Declares).getLast? with
  | none => 0
  | some r => u32 (r.ops.headD 0)

/-- Instruction `inst` is record `r`: its code and all of its operands. -/
structure AirBody.Carries (b : AirBody) (inst : AirInst) (r : BsRecord) : Prop where
  raw : inst.rawCode = r.code
  code : inst.code = classifyInst r.code
  num : inst.numOps = r.ops.length
  ops : b.opsOf inst = r.ops

structure AirBody.Decodes (b : AirBody) (recs : List BsRecord) : Prop where
  len : b.insts.length = recs.length
  blocks : b.numBlocks = declaredBlocks recs
  each : ∀ (i : Nat) (r : BsRecord), recs[i]? = some r →
    ∃ inst, b.insts[i]? = some inst ∧ b.Carries inst r

theorem classifyInst_declareblocks {raw : Nat} : classifyInst raw = .declareblocks ↔ raw = 1 := by
  constructor
  · intro h
    simp only [classifyInst] at h
    split at h
    · rfl
    all_goals cases h
  · intro h
    rw [h]
    rfl

theorem declaredBlocks_append (recs : List BsRecord) (r : BsRecord) :
    declaredBlocks (recs ++ [r]) = match classifyInst r.code, r.ops with
      | .declareblocks, op::_ => u32 op
      | _, _ => declaredBlocks recs := by
  rw [declaredBlocks, List.filter_append]
  by_cases hr : r.Declares
  · obtain ⟨op, ops, hops⟩ := List.exists_cons_of_ne_nil hr.2
    rw [classifyInst_declareblocks.2 hr.1,
      show [r].filter (fun r => decide r.Declares) = [r] by simp [hr], List.getLast?_concat]
    simp only [hops, List.headD_cons]
  · rw [show [r].filter (fun r => decide r.Declares) = [] by simp [hr], List.append_nil,
      ← declaredBlocks]
    split
    · rename_i hc hops
      exact absurd ⟨classifyInst_declareblocks.1 hc, by rw [hops]; exact List.cons_ne_nil _ _⟩ hr
    · rfl

/- What a step of the reader leaves alone. -/

/-- Only the arena has grown, at its end. -/
structure BodyKept (b b' : AirBody) : Prop where
  insts : b'.insts = b.insts
  blocks : b'.numBlocks = b.numBlocks
  used : b.arena.used ≤ b'.arena.used
  cells : b'.arena.used ≤ 2^32 → ∀ o, o < b.arena.used → b'.arena.cells o = b.arena.cells o

theorem BodyKept.refl (b : AirBody) : BodyKept b b := ⟨rfl, rfl, Nat.le_refl _, fun _ _ _ => rfl⟩

theorem BodyKept.trans (h : BodyKept b b') (h' : BodyKept b' b'') : BodyKept b b'' where
  insts := h'.insts.trans h.insts
  blocks := h'.blocks.trans h.blocks
  used := Nat.le_trans h.used h'.used
  cells hu o ho := by
    rw [h'.cells hu o (Nat.lt_of_lt_of_le ho h.used)]
    exact h.cells (Nat.le_trans h'.used hu) o ho

theorem BodyKept.of_arena (hi : b'.insts = b.insts) (hn : b'.numBlocks = b.numBlocks)
    (hu : b'.arena.used = b.arena.used) (hc : b'.arena.cells = b.arena.cells) : BodyKept b b' :=
  ⟨hi, hn, by rw [hu], fun _ _ _ => by rw [hc]⟩

theorem body_reserve_kept (env : ReaderEnv) (b : AirBody) (n : Nat) :
    BodyKept b (b.reserve env n).2 where
  insts := rfl
  blocks := rfl
  used := reserve_used_le env { arena := b.arena } n
  cells _ o _ := by simp only [AirBody.reserve, (arenaReserve_cases env b.arena n).2]

theorem body_reserve_off {n : Nat} (h : (b.reserve env n).1 ≠ 0)
    (hu : (b.reserve env n).2.arena.used ≤ 2^32) :
    (b.reserve env n).1 = align8 b.arena.used ∧
      (b.reserve env n).2.arena.used = align8 b.arena.used+n :=
  reserve_off (m := { arena := b.arena }) h hu

theorem refresh_kept (b : AirBody) : BodyKept b b.refresh := .of_arena rfl rfl rfl rfl

theorem body_store_kept (b : AirBody) (p : Ptr) : BodyKept b (b.store p) :=
  .of_arena rfl rfl rfl rfl

/-- What is put where it was reserved. -/
theorem reserve_put_kept (env : ReaderEnv) (b : AirBody) (n : Nat) (c : Cell)
    (h : (b.reserve env n).1 ≠ 0) :
    BodyKept b ((b.reserve env n).2.put (b.reserve env n).1 c) where
  insts := rfl
  blocks := rfl
  used := (body_reserve_kept env b n).used
  cells hu o ho := by
    have hoff := (body_reserve_off h hu).1
    have hal := align8_le b.arena.used
    have hcells : (b.reserve env n).2.arena.cells = b.arena.cells :=
      (arenaReserve_cases env b.arena n).2
    rw [AirBody.put, Arena.put, ← hcells]
    exact Function.update_of_ne (by omega) _ _

theorem internU32Array_kept (env : ReaderEnv) (b : AirBody) (ops : List Nat) :
    BodyKept b (b.internU32Array env ops).2 := by
  simp only [AirBody.internU32Array]
  split_ifs with h0
  · exact body_reserve_kept env b _
  · exact reserve_put_kept env b _ _ h0

theorem localConstantsRecord_kept {w w' : ConstantsWalk} {r : BsRecord}
    (h : localConstantsRecord env b w r = some (b', w')) : BodyKept b b' := by
  rw [localConstantsRecord] at h
  split_ifs at h
  · split at h
    · cases h; exact .refl b
    · cases h; exact .refl b
  · have hr := congrArg Prod.fst (Option.some.inj h)
    simp only at hr
    have hs := body_store_kept b w.ptr
    have hpayload : BodyKept b ((((b.store w.ptr).internU32Array env r.ops).2.refresh).store
        ((((b.store w.ptr).internU32Array env r.ops).2.refresh).arena.ptr w.off)) :=
      ((hs.trans (internU32Array_kept ..)).trans (refresh_kept _)).trans (body_store_kept _ _)
    rw [← hr]
    split
    · exact hs
    · exact hs
    · exact hs
    · exact hs
    · exact hpayload
    · exact hpayload
    · exact hs

/- The walk over a local CONSTANTS block comes back to the body. -/

/-- An iteration of the walk leaves it, or takes the cursor on. -/
theorem localConstantsStep_cases (env : ReaderEnv) (info : Blockinfo) (buf : List UInt8) {s : BodyReader}
    {cb : BsBlock} {w : ConstantsWalk} (hc : s.constants = some (cb, w)) :
    ∃ t, bodyStep env info buf s = .inl t ∧ t.blk = s.blk ∧ BodyKept s.b t.b ∧
      ((t.constants = none ∧ ∃ p, t.pos = seekCursor buf cb.endPos p) ∨
        (s.pos < cb.endPos ∧ s.pos < t.pos ∧
          ∃ cb' w', t.constants = some (cb', w') ∧ cb'.endPos = cb.endPos)) := by
  have hkept : BodyKept s.b { s.b with localConstantsOff := w.off, localConstants := w.entries } :=
    .of_arena rfl rfl rfl rfl
  simp only [bodyStep, hc, localConstantsStep]
  by_cases hin : cb.endPos ≤ s.pos
  · rw [if_pos hin]
    exact ⟨_, rfl, rfl, hkept, .inl ⟨rfl, _, rfl⟩⟩
  · rw [if_neg hin]
    have hlt : s.pos < cb.endPos := by omega
    cases hnext : blockNextRecord buf cb s.pos with
    | none => exact ⟨_, rfl, rfl, hkept, .inl ⟨rfl, _, rfl⟩⟩
    | some next =>
      obtain ⟨ev, cb', p⟩ := next
      cases nextRecord_takes hlt hnext with
      | sub id hcode =>
        exact ⟨_, rfl, rfl, .refl _, .inr ⟨hlt, (skipCursor_takes hcode).1, _, _, rfl, rfl⟩⟩
      | item hev hend hp _ =>
        cases ev with
        | stop => exact ⟨_, rfl, rfl, hkept, .inl ⟨rfl, _, rfl⟩⟩
        | subblock id => exact absurd rfl (hev id)
        | define => exact ⟨_, rfl, rfl, .refl _, .inr ⟨hlt, hp, _, _, rfl, hend⟩⟩
        | record r =>
          simp only
          cases hr : localConstantsRecord env s.b w r with
          | none => exact ⟨_, rfl, rfl, hkept, .inl ⟨rfl, _, rfl⟩⟩
          | some next =>
            exact ⟨_, rfl, rfl, localConstantsRecord_kept hr, .inr ⟨hlt, hp, _, _, rfl, hend⟩⟩

theorem localConstants_leave (env : ReaderEnv) (info : Blockinfo) (buf : List UInt8)
    {s : BodyReader} {cb : BsBlock} {w : ConstantsWalk} (hc : s.constants = some (cb, w)) (hend : cb.endPos ≤ 8*buf.length) :
    ∃ t, Reaches (bodyStep env info buf) s t ∧ t.constants = none ∧ t.pos = cb.endPos ∧
      t.blk = s.blk ∧ BodyKept s.b t.b := by
  generalize hleft : 8*buf.length-s.pos = left
  induction left using Nat.strongRecOn generalizing s cb w with
  | ind left ih =>
    obtain ⟨t, hst, hblk, hkept, hcase⟩ := localConstantsStep_cases env info buf hc
    rcases hcase with ⟨hnone, p, hp⟩ | ⟨hlt, hgo, cb', w', hc', hsame⟩
    · refine ⟨t, reaches_step hst, hnone, ?_, hblk, hkept⟩
      rw [hp, seekCursor, bsSeek, if_neg (Nat.not_lt.2 hend)]
      rfl
    · obtain ⟨u, hu, hnone, hpos, hblk', hkept'⟩ :=
        ih (8*buf.length-t.pos) (by omega) hc' (by rw [hsame]; exact hend) rfl
      exact ⟨u, (reaches_step hst).trans hu, hnone, hpos.trans hsame, hblk'.trans hblk,
        hkept.trans hkept'⟩

/- The instructions. -/

theorem opsOf_kept {inst : AirInst} (h : BodyKept b b') (hu : b'.arena.used ≤ 2^32)
    (ho : inst.opsOff < b.arena.used) : b'.opsOf inst = b.opsOf inst := by
  simp only [AirBody.opsOf, h.cells hu _ ho]

/-- After the records `recs`: the instructions are these, with operands below the end of the
arena. -/
structure ReadSo (b : AirBody) (recs : List BsRecord) : Prop where
  decodes : b.Decodes recs
  below : ∀ inst ∈ b.insts, inst.opsOff < b.arena.used

theorem ReadSo.kept {recs : List BsRecord} (h : ReadSo b recs) (hk : BodyKept b b')
    (hu : b'.arena.used ≤ 2^32) : ReadSo b' recs := by
  constructor
  · refine ⟨by rw [hk.insts, h.decodes.len], by rw [hk.blocks, h.decodes.blocks], fun i r hr => ?_⟩
    obtain ⟨inst, hi, hc⟩ := h.decodes.each i r hr
    refine ⟨inst, by rw [hk.insts, hi], hc.raw, hc.code, hc.num, ?_⟩
    rw [opsOf_kept hk hu (h.below inst (List.mem_of_getElem? hi)), hc.ops]
  · intro inst hinst
    rw [hk.insts] at hinst
    exact Nat.lt_of_lt_of_le (h.below inst hinst) hk.used

theorem ReadSo.push {recs : List BsRecord} {r : BsRecord} {off : Nat} (h : ReadSo b recs)
    (hoff : off < b.arena.used)
    (hops : b.opsOf ⟨classifyInst r.code, r.code, none, r.ops.length, off⟩ = r.ops) :
    ReadSo (b.pushInst r off) (recs ++ [r]) := by
  have hblocks : (b.pushInst r off).numBlocks = declaredBlocks (recs ++ [r]) := by
    rw [declaredBlocks_append, AirBody.pushInst, ← h.decodes.blocks]
    rfl
  have hinsts : (b.pushInst r off).insts = b.insts ++
      [⟨classifyInst r.code, r.code, ptrUnlessZero b.arena off, r.ops.length, off⟩] := rfl
  constructor
  · refine ⟨?_, hblocks, fun i r' hr' => ?_⟩
    · rw [hinsts, List.length_append, List.length_append, h.decodes.len]
      rfl
    · rw [hinsts]
      rcases Nat.lt_trichotomy i recs.length with hi | hi | hi
      · rw [List.getElem?_append_left hi] at hr'
        obtain ⟨inst, hinst, hc⟩ := h.decodes.each i r' hr'
        refine ⟨inst, ?_, hc.raw, hc.code, hc.num, hc.ops⟩
        rw [List.getElem?_append_left (by rw [h.decodes.len]; exact hi), hinst]
      · rw [hi, List.getElem?_concat_length] at hr'
        cases hr'
        rw [hi, ← h.decodes.len, List.getElem?_concat_length]
        exact ⟨_, rfl, rfl, rfl, rfl, hops⟩
      · rw [List.getElem?_eq_none (by rw [List.length_append]; exact hi)] at hr'
        cases hr'
  · intro inst hinst
    rw [hinsts] at hinst
    rcases List.mem_append.1 hinst with hinst | hinst
    · exact h.below inst hinst
    · rw [List.mem_singleton.1 hinst]
      exact hoff

/-- One record, when memory suffices. -/
theorem instRecord_read {recs : List BsRecord} {r : BsRecord} (h : ReadSo b recs)
    (hpos : 0 < b.arena.used) (hr : instRecord env b r = some b') (hu : b'.arena.used ≤ 2^32) :
    ReadSo b' (recs ++ [r]) ∧ 0 < b'.arena.used := by
  rw [instRecord] at hr
  by_cases hnil : r.ops = []
  · rw [if_pos hnil] at hr
    cases hr
    exact ⟨h.push hpos (by rw [hnil]; rfl), hpos⟩
  · rw [if_neg hnil] at hr
    simp only at hr
    split_ifs at hr with h0
    cases hr
    have hk := (body_reserve_kept env b (8*r.ops.length)).trans (refresh_kept _)
    obtain ⟨hoff, hend⟩ := body_reserve_off h0 hu
    have hput := reserve_put_kept env b (8*r.ops.length) (.words r.ops) h0
    have hlen : 0 < r.ops.length := List.length_pos_iff.2 hnil
    have hsame : BodyKept ((b.reserve env (8*r.ops.length)).2.put
        (b.reserve env (8*r.ops.length)).1 (.words r.ops))
        ((b.reserve env (8*r.ops.length)).2.refresh.put (b.reserve env (8*r.ops.length)).1
          (.words r.ops)) := .of_arena rfl rfl rfl rfl
    have hread := h.kept (hput.trans hsame) hu
    refine ⟨hread.push ?_ ?_, Nat.lt_of_lt_of_le hpos (hput.trans hsame).used⟩
    · rw [hoff]
      exact Nat.lt_of_lt_of_eq (by omega) hend.symm
    · simp only [AirBody.opsOf, if_neg h0, AirBody.put, Arena.put, Function.update_self]

/-- Memory suffices from here on: no iteration fails for want of it, and the arena stays within
the range of its offsets. -/
def Suffices (env : ReaderEnv) (info : Blockinfo) (buf : List UInt8) (s : BodyReader) : Prop :=
  ∀ t, Reaches (bodyStep env info buf) s t →
    t.b.arena.used ≤ 2^32 ∧ bodyStep env info buf t ≠ .inr .outOfMemory

theorem Suffices.of_reaches {info : Blockinfo} {s t : BodyReader} (h : Suffices env info buf s)
    (ht : Reaches (bodyStep env info buf) s t) : Suffices env info buf t :=
  fun _ hu => h _ (ht.trans hu)

/-- The table of a block can be installed whatever it is. -/
def Installable (info : Blockinfo) : Prop := ∀ t, (info t).length ≤ abbrevMaxPerBlock

theorem blockEnter_installable {info : Blockinfo} (h : Installable info) {width pos first : Nat}
    {blk : BsBlock} (hn : blockEnter buf width none pos = some (blk, first)) :
    blockEnter buf width (some info) pos = some ({ blk with
      abbrevs := if blk.blockId < blockinfoMaxBlockIds then info blk.blockId else [] }, first) := by
  simp only [blockEnter, Option.bind_eq_bind] at hn ⊢
  obtain ⟨⟨code, p₁⟩, h₁, hn⟩ := Option.bind_eq_some_iff.1 hn
  have hcode : ¬ code ≠ 1 := by
    intro hne
    rw [if_pos hne] at hn
    cases hn
  rw [if_neg hcode] at hn
  obtain ⟨⟨sub, p₂⟩, h₂, hn⟩ := Option.bind_eq_some_iff.1 hn
  cases hn
  simp only [h₁, Option.bind_some, if_neg hcode, h₂]
  have hnil : sub.abbrevs = [] := by
    simp only [readEnterSubblockPayload, Option.bind_eq_bind] at h₂
    obtain ⟨⟨id, q₁⟩, -, h₂⟩ := Option.bind_eq_some_iff.1 h₂
    obtain ⟨⟨w, q₂⟩, -, h₂⟩ := Option.bind_eq_some_iff.1 h₂
    simp only at h₂
    split_ifs at h₂
    obtain ⟨⟨words, q₃⟩, -, h₂⟩ := Option.bind_eq_some_iff.1 h₂
    cases h₂
    rfl
  by_cases hid : sub.blockId < blockinfoMaxBlockIds
  · have hle := h sub.blockId
    rw [if_pos hid, if_pos hid, abbrevTableCopy, hnil, if_neg (by simpa using hle)]
    rfl
  · rw [if_neg hid, if_neg hid, ← hnil]

theorem blockSkip_enter {width pos stop : Nat} (h : blockSkip buf width pos = some stop) :
    ∃ blk first, blockEnter buf width none pos = some (blk, first) ∧ stop = blk.endPos ∧
      blk.endPos ≤ 8*buf.length := by
  simp only [blockSkip, Option.bind_eq_bind] at h
  obtain ⟨⟨blk, first⟩, h₁, h⟩ := Option.bind_eq_some_iff.1 h
  obtain ⟨hp, hle⟩ := bsSeek_some h
  exact ⟨blk, first, h₁, hp, hle⟩

/-- The loop over the body reads the records of its block, as many as it has places for. -/
theorem body_reads {info : Blockinfo} (hi : Installable info) {blk : BsBlock} {pos : Nat}
    {recs : List BsRecord} (hr : BlockRecords buf blk pos recs) {s : BodyReader}
    (hblk : s.blk = blk) (hpos : s.pos = pos) (hc : s.constants = none) {done : List BsRecord}
    (h : ReadSo s.b done) (h0 : 0 < s.b.arena.used) (hcap : done.length+recs.length ≤ maxInsts)
    (hmem : Suffices env info buf s) :
    ∃ b, Returns (bodyStep env info buf) s (.finished b) ∧ ReadSo b (done ++ recs) := by
  have hnot : ∀ {ev : BsEvent} {blk' : BsBlock} {p : Nat} (s : BodyReader), ev ≠ .stop →
      blockNextRecord buf s.blk s.pos = some (ev, blk', p) → ¬ s.blk.endPos ≤ s.pos := by
    intro ev blk' p s hev hnext hin
    rw [show blockNextRecord buf s.blk s.pos = some (.stop, s.blk, s.pos) by
      simp only [blockNextRecord, if_pos hin]] at hnext
    cases hnext
    exact hev rfl
  induction hr generalizing s done with
  | @stop blk blk' pos p hnext =>
    subst hblk hpos
    refine ⟨s.b, returns_step ?_, by rwa [List.append_nil]⟩
    simp only [bodyStep, hc]
    by_cases hin : s.blk.endPos ≤ s.pos
    · rw [if_pos hin]
    · rw [if_neg hin, hnext]
  | @record blk blk' pos p r recs hnext hrest ih =>
    subst hblk hpos
    have hin := hnot s (by simp) hnext
    rw [List.length_cons] at hcap
    have hroom : ¬ maxInsts ≤ s.b.insts.length := by
      rw [h.decodes.len]
      omega
    cases hrec : instRecord env s.b r with
    | none =>
      have hstep : bodyStep env info buf s = .inr .outOfMemory := by
        simp only [bodyStep, hc, if_neg hin, hnext, if_neg hroom, hrec]
      exact absurd hstep (hmem s (reaches_refl s)).2
    | some b =>
      have hstep : bodyStep env info buf s = .inl ⟨b, p, blk', none⟩ := by
        simp only [bodyStep, hc, if_neg hin, hnext, if_neg hroom, hrec]
      have hgo := reaches_step hstep
      obtain ⟨hread, hused⟩ := instRecord_read h h0 hrec (hmem _ hgo).1
      obtain ⟨b', hb', hall⟩ := ih (s := ⟨b, p, blk', none⟩) rfl rfl rfl hread hused
        (by rw [List.length_append, List.length_singleton]; omega) (hmem.of_reaches hgo)
      exact ⟨b', hgo.returns hb', by rwa [List.append_assoc] at hall⟩
  | @define blk blk' pos p recs hnext hrest ih =>
    subst hblk hpos
    have hin := hnot s (by simp) hnext
    have hstep : bodyStep env info buf s = .inl ⟨s.b, p, blk', none⟩ := by
      simp only [bodyStep, hc, if_neg hin, hnext]
    have hgo := reaches_step hstep
    obtain ⟨b', hb', hall⟩ := ih (s := ⟨s.b, p, blk', none⟩) rfl rfl rfl h h0 hcap
      (hmem.of_reaches hgo)
    exact ⟨b', hgo.returns hb', hall⟩
  | @subblock blk blk' pos p id stop recs hnext hskip hrest ih =>
    subst hblk hpos
    have hin := hnot s (by simp) hnext
    have hstep : bodyStep env info buf s = bodySubblock env info buf s.b blk' id p := by
      simp only [bodyStep, hc, if_neg hin, hnext]
    obtain ⟨sub, first, henter, hstop, hend⟩ := blockSkip_enter hskip
    by_cases hid : id = 11
    · have hinfo := blockEnter_installable hi henter
      generalize (if sub.blockId < blockinfoMaxBlockIds then info sub.blockId else []) = abbrevs
        at hinfo
      rw [bodySubblock, if_pos hid, hinfo] at hstep
      simp only at hstep
      split_ifs at hstep with hoom
      · exact absurd hstep (hmem s (reaches_refl s)).2
      · have hgo := reaches_step hstep
        obtain ⟨t, ht, hnone, htpos, htblk, hkept⟩ :=
          localConstants_leave env info buf (s := ⟨_, first, blk', some ({ sub with
            abbrevs := abbrevs }, _)⟩) rfl hend
        have hgo' := hgo.trans ht
        have hk := ((body_reserve_kept env s.b (sizeofAirConstant*maxLocalConsts)).trans
          (refresh_kept _)).trans hkept
        obtain ⟨b', hb', hall⟩ := ih htblk (htpos.trans hstop.symm) hnone
          (h.kept hk (hmem _ hgo').1) (Nat.lt_of_lt_of_le h0 hk.used) hcap (hmem.of_reaches hgo')
        exact ⟨b', hgo'.returns hb', hall⟩
    · rw [bodySubblock, if_neg hid, hskip] at hstep
      have hgo := reaches_step hstep
      obtain ⟨b', hb', hall⟩ := ih (s := ⟨s.b, stop, blk', none⟩) rfl rfl rfl h h0 hcap
        (hmem.of_reaches hgo)
      exact ⟨b', hgo.returns hb', hall⟩

end Lagfx
