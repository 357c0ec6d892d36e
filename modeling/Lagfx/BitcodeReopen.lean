import Lagfx.BitcodeAttach

/-! When the bodies of a module's functions are attached and read as its FUNCTION_BLOCKs
were written. -/
namespace Lagfx
open ByteMemory Bits Machine

variable {env : ReaderEnv} {buf : List UInt8} {m m' : AirModule} {s t : Reader}
variable {offs : List Nat} {fns : List (List Nat)} {spans : List BodySpan}

/- The tables of BLOCKINFO: only its DEFINE_ABBREVs add to them. -/

theorem storeFunction_info (m : AirModule) (i : Nat) (f : AirFunction → AirFunction) :
    (m.storeFunction i f).blockinfo = m.blockinfo := by
  rw [AirModule.storeFunction]
  split
  · rfl
  · split
    · split_ifs
      · rfl
      · rfl
    · rfl

theorem intern_info (env : ReaderEnv) (m : AirModule) (n : Nat) (c : Cell) :
    (m.intern env n c).2.blockinfo = m.blockinfo := by
  rw [intern_eq]
  split_ifs
  · rfl
  · rfl

theorem resolveNames_info {strtabLen left i : Nat}
    (h : resolveNames env strtabLen left i m = some m') : m'.blockinfo = m.blockinfo := by
  induction left generalizing i m with
  | zero => cases h; rfl
  | succ left ih =>
    simp only [resolveNames] at h
    split_ifs at h
    · rw [ih h, storeFunction_info]
    · rw [ih h, storeFunction_info]
      exact intern_info ..

theorem clearNames_info (left i : Nat) (m : AirModule) :
    (clearNames left i m).blockinfo = m.blockinfo := by
  induction left generalizing i m with
  | zero => rfl
  | succ left ih => rw [clearNames, ih, storeFunction_info]

theorem finishOpen_info {r : AirModule} (h : finishOpen env m = .ok r) :
    r.blockinfo = m.blockinfo := by
  simp only [finishOpen] at h
  cases hs : strtabPass env m with
  | none => rw [hs] at h; cases h
  | some m₁ =>
    have h₁ : m₁.blockinfo = m.blockinfo := by
      rw [strtabPass] at hs
      split_ifs at hs
      · exact (resolveNames_info hs).trans rfl
      · cases hs
        exact clearNames_info ..
    simp only [hs] at h
    cases hm : materializeStrings env m₁ with
    | none => rw [hm] at h; cases h
    | some m₂ =>
      have h₂ : m₂.blockinfo = m₁.blockinfo := by
        simp only [materializeStrings] at hm
        split_ifs at hm
        · cases hm; rfl
        · cases hm; rfl
      simp only [hm, Except.ok.injEq] at h
      rw [← h, ← h₁, ← h₂]
      split_ifs
      · rfl
      · rfl

theorem functionRecord_info {ops : List Nat} (h : functionRecord env m ops = some m') :
    m'.blockinfo = m.blockinfo := by
  rw [functionRecord] at h
  split_ifs at h with hshort
  · cases h
    rfl
  · have hstep := intern_info env m sizeofAirFunction (.function (recordFunction ops))
    simp only at h
    split_ifs at h
    · cases h
      exact hstep
    · cases h
      exact hstep

theorem moduleRecord_info {r : BsRecord} (h : moduleRecord env m r = some m') :
    m'.blockinfo = m.blockinfo := by
  have hstring : ∀ (m₁ : AirModule) (n : Nat), (if n = 0 then none else some m₁) = some m' →
      m₁.blockinfo = m.blockinfo → m'.blockinfo = m.blockinfo := by
    intro m₁ n hs hk
    split_ifs at hs
    cases hs
    exact hk
  have hs := intern_info env m (r.ops.length+1) (charCell r.ops)
  simp only [moduleRecord] at h
  split at h
  · exact hstring _ _ h hs
  · exact hstring _ _ h hs
  · exact hstring _ _ h hs
  · exact functionRecord_info h
  · cases h
    rfl
  · cases h
    rfl

theorem innerRecord_info (env : ReaderEnv) (h : m.arena.Sound) {inner : Inner} (hl : inner.Live m) (r : BsRecord) :
    (inner.record env m r).All fun m' _ => m'.blockinfo = m.blockinfo := by
  cases hp : inner.entriesPtr with
  | none =>
    have hq := innerRecord_quiet env h hl hp r
    cases hrec : inner.record env m r with
    | go m' i => rw [hrec] at hq; exact quiet_blockinfo hq.1.tables
    | leave m' i => rw [hrec] at hq; exact quiet_blockinfo hq.1.tables
    | oom => trivial
  | some p =>
    cases inner with
    | symtab w =>
      exact (symtabRecord_after env h w r).map _ fun m' w' ha => quiet_blockinfo ha.2.1
    | _ => cases hp

theorem innerClose_info (m : AirModule) (inner : Inner) :
    (inner.close m).blockinfo = m.blockinfo := by
  cases inner <;> rfl

theorem innerDefine_installable (h : Installable m.blockinfo) (abbrevs : List Abbrev)
    (inner : Inner) : Installable (inner.define m abbrevs).blockinfo := by
  cases inner with
  | blockinfo target =>
    simp only [Inner.define]
    split
    · exact h
    · rename_i ab _
      intro t
      simp only [installAbbrev]
      split_ifs with hroom
      · by_cases ht : t = target
        · subst ht
          rw [Function.update_self, List.length_append, List.length_singleton]
          exact hroom.2
        · rw [Function.update_of_ne ht]
          exact h t
      · exact h t
  | _ => exact h

theorem readerStep_installable (hs : Sane s) (hi : Installable s.m.blockinfo)
    (h : readerStep env buf s = .inl t) : Installable t.m.blockinfo := by
  rcases readerStep_cases h with ⟨w, hsub, hcase⟩ | ⟨hsub, hcase⟩
  · have hall := innerRecord_info env hs.sound (hs.walk w hsub)
    cases hcase with
    | go r blk p m i hnext hrec ht =>
      have hr := hall r
      rw [hrec] at hr
      have heq : t.m.blockinfo = s.m.blockinfo := by rw [ht]; exact hr
      rwa [heq]
    | leave r blk p q m i hnext hrec ht =>
      have hr := hall r
      rw [hrec] at hr
      have heq : t.m.blockinfo = s.m.blockinfo := by rw [ht]; exact (innerClose_info m i).trans hr
      rwa [heq]
    | define hno blk p ht => rw [ht]; exact innerDefine_installable hi _ _
    | stay hno blk p ht => rw [ht]; exact hi
    | close hno p ht =>
      have heq : t.m.blockinfo = s.m.blockinfo := by rw [ht]; exact innerClose_info ..
      rwa [heq]
  · cases hcase with
    | quiet hf he hb hm ht => rwa [hm]
    | record r he hb hf hm ht => rwa [moduleRecord_info hm]
    | enter id blk inner hf he hb ho ht =>
      rwa [quiet_blockinfo (openInner_facts hs.sound ho).1.tables]
    | body next start stop hf he hb hm ht =>
      have heq : t.m.blockinfo = s.m.blockinfo := by
        rw [hm]
        simp only [attachBody]
        split_ifs
        · exact storeFunction_info ..
        · rfl
      rwa [heq]

/- The copy of the bitstream. -/

theorem initModule_info {m₀ : AirModule} (h : initModule env buf = some m₀) :
    m₀.blockinfo = fun _ => [] := by
  simp only [initModule] at h
  split_ifs at h
  cases h
  exact intern_info ..

/-- The copy is in the arena. -/
structure HoldsCopy (buf : List UInt8) (m : AirModule) : Prop where
  inside : m.bitstreamOffset < m.arena.used
  copy : m.arena.cells m.bitstreamOffset = some (.bytes buf)

theorem HoldsCopy.bitstream (h : HoldsCopy buf m) : m.bitstream = buf := by
  rw [AirModule.bitstream, h.copy]

theorem initModule_copy {m₀ : AirModule} (hne : buf ≠ []) (h : initModule env buf = some m₀)
    (hu : m₀.arena.used ≤ 2^32) : HoldsCopy buf m₀ := by
  simp only [initModule] at h
  split_ifs at h with hgrant hfail
  cases h
  have h0 : (AirModule.intern env { arena := Arena.init (16*1024) 2 } buf.length (.bytes buf)).1 ≠ 0 :=
    fun h0 => hfail (.inl ⟨h0, hne⟩)
  obtain ⟨hoff, hend, hcells⟩ := intern_cells h0 hu
  have hlen : 0 < buf.length := List.length_pos_iff.2 hne
  refine ⟨?_, ?_⟩
  · simp only [AirModule.called]
    rw [hoff, hend]
    omega
  · simp only [AirModule.called]
    rw [hoff, hcells, Function.update_self]

theorem HoldsCopy.effect (h : HoldsCopy buf s.m) (he : Effect env buf s m')
    (hu : m'.arena.used ≤ 2^32) : HoldsCopy buf m' := by
  refine ⟨?_, ?_⟩
  · rw [he.bitstream]
    exact Nat.lt_of_lt_of_le h.inside he.used_le
  · rw [he.bitstream]
    exact he.bytes hu h.inside h.copy

theorem HoldsCopy.same (h : HoldsCopy buf m) (hb : SameBodies m m') (hu : m'.arena.used ≤ 2^32) :
    HoldsCopy buf m' := by
  refine ⟨?_, ?_⟩
  · rw [hb.bitstream]
    exact Nat.lt_of_lt_of_le h.inside hb.used
  · rw [hb.bitstream]
    exact hb.bytes hu _ _ h.inside h.copy

theorem copy_run {n : Nat} (h : HoldsCopy buf s.m)
    (hrun : run (readerStep env buf) n s = .inr (.finished m)) (hu : m.arena.used ≤ 2^32) :
    HoldsCopy buf m := by
  induction n generalizing s with
  | zero => cases hrun
  | succ n ih =>
    cases hst : readerStep env buf s with
    | inl t =>
      rw [run_succ_inl hst] at hrun
      exact ih (h.effect (readerStep_effect hst) (Nat.le_trans (run_used_le hrun) hu)) hrun
    | inr r =>
      rw [run_succ_inr hst] at hrun
      cases hrun
      rw [(readerStep_finished hst).1]
      exact h

/- Where the FUNCTION_BLOCKs lie. -/

theorem bodySpanAt_mem {sp : BodySpan} (h : sp ∈ bodySpanAt buf s) :
    s.module ≠ none ∧ sp.start = s.pos ∧ s.pos < sp.stop := by
  rw [bodySpanAt] at h
  split at h
  · rename_i blk p hnext
    split at h
    · rename_i stop hskip
      rw [List.mem_singleton.1 h]
      rw [moduleNext] at hnext
      split at hnext
      · rename_i w hsub hw
        have hin : ¬ w.blk.endPos ≤ s.pos := by
          intro hin
          rw [blockNextRecord, if_pos hin] at hnext
          cases hnext
        cases nextRecord_takes (by omega) hnext with
        | item hev => exact absurd rfl (hev 12)
        | sub _ hcode => exact ⟨by rw [hw]; exact Option.some_ne_none _, rfl, (blockSkip_takes hskip).1⟩
      · cases hnext
    · cases h
  · cases h

/-- Inside of a block the cursor is not at the first bit. -/
theorem reaches_inside {u : Reader} (h : Reaches (readerStep env buf) (.start m) u) :
    u.level = 0 ∨ 0 < u.low := by
  refine h.inv (I := fun u => u.level = 0 ∨ 0 < u.low) (fun a b ha hst => ?_) (.inl rfl)
  cases (readerStep_progress hst).1 with
  | stay hl hlt hlow =>
    rw [hl]
    rcases ha with ha | ha
    · exact .inl ha
    · exact .inr (Nat.lt_of_lt_of_le ha hlow)
  | stuck hn heq => rw [heq]; exact ha
  | enter hl hlow => exact .inr (Nat.lt_of_le_of_lt (Nat.zero_le _) hlow)
  | leave hl hlow =>
    rcases ha with ha | ha
    · omega
    · exact .inr (Nat.lt_of_lt_of_le ha hlow)

theorem span_bounds {n : Nat} {sp : BodySpan}
    (h : .body sp ∈ trace (readerStep env buf) (itemsAt buf) n (.start m)) :
    0 < sp.start ∧ sp.start < sp.stop := by
  obtain ⟨u, hu, hmem⟩ := exists_of_mem_trace h
  have hsp : sp ∈ bodySpanAt buf u := by
    rw [itemsAt, List.mem_append, List.mem_append] at hmem
    rcases hmem with (hmem | hmem) | hmem
    · split_ifs at hmem
      · cases List.mem_singleton.1 hmem
      · cases hmem
    · obtain ⟨ops, -, hops⟩ := List.mem_map.1 hmem
      cases hops
    · obtain ⟨sp', hsp', heq⟩ := List.mem_map.1 hmem
      cases heq
      exact hsp'
  obtain ⟨hmod, hstart, hstop⟩ := bodySpanAt_mem hsp
  have hlow := low_le_pos u
  have hlevel : u.level ≠ 0 := by
    obtain ⟨w, hw⟩ := Option.ne_none_iff_exists'.1 hmod
    rw [Reader.level, hw]
    simp only [Option.isSome_some, if_true]
    omega
  rcases reaches_inside hu with h0 | h0
  · exact absurd h0 hlevel
  · omega

/- The records of a block, computed. -/

def readRecords (buf : List UInt8) : Nat → BsBlock → Nat → Option (List BsRecord)
  | 0, _, _ => none
  | fuel+1, blk, pos =>
    match blockNextRecord buf blk pos with
    | none => none
    | some (.stop, _, _) => some []
    | some (.record r, blk, p) => (readRecords buf fuel blk p).map fun recs => r::recs
    | some (.define, blk, p) => readRecords buf fuel blk p
    | some (.subblock _, blk, p) =>
      match blockSkip buf blk.abbrevWidth p with
      | none => none
      | some stop => readRecords buf fuel blk stop

def BodySpan.read (buf : List UInt8) (fuel : Nat) (sp : BodySpan) : Option (List BsRecord) :=
  match blockEnter buf sp.width none sp.start with
  | none => none
  | some (blk, first) =>
    if blk.blockId = 12 then readRecords buf fuel { blk with abbrevs := sp.abbrevs } first else none

theorem blockRecords_of_read {fuel : Nat} {blk : BsBlock} {pos : Nat} {recs : List BsRecord}
    (h : readRecords buf fuel blk pos = some recs) : BlockRecords buf blk pos recs := by
  induction fuel generalizing blk pos recs with
  | zero => cases h
  | succ fuel ih =>
    rw [readRecords] at h
    split at h
    · cases h
    · rename_i hnext
      cases h
      exact .stop hnext
    · rename_i hnext
      obtain ⟨rest, hrest, rfl⟩ := Option.map_eq_some_iff.1 h
      exact .record hnext (ih hrest)
    · rename_i hnext
      exact .define hnext (ih h)
    · rename_i hnext
      split at h
      · cases h
      · rename_i stop hskip
        exact .subblock hnext hskip (ih h)

theorem BodySpan.records_of_read {fuel : Nat} {sp : BodySpan} {recs : List BsRecord}
    (h : sp.read buf fuel = some recs) : sp.Records buf recs := by
  rw [BodySpan.read] at h
  split at h
  · cases h
  · rename_i blk first henter
    split_ifs at h with hid
    exact ⟨blk, first, henter, hid, blockRecords_of_read h⟩

theorem BlockRecords.unique {blk : BsBlock} {pos : Nat} {recs recs' : List BsRecord}
    (h : BlockRecords buf blk pos recs) (h' : BlockRecords buf blk pos recs') : recs = recs' := by
  induction h generalizing recs' with
  | stop hnext =>
    cases h' with
    | stop hnext' => rfl
    | record hnext' => rw [hnext] at hnext'; cases hnext'
    | define hnext' => rw [hnext] at hnext'; cases hnext'
    | subblock hnext' => rw [hnext] at hnext'; cases hnext'
  | record hnext _ ih =>
    cases h' with
    | stop hnext' => rw [hnext] at hnext'; cases hnext'
    | record hnext' hrest' => rw [hnext] at hnext'; cases hnext'; rw [ih hrest']
    | define hnext' => rw [hnext] at hnext'; cases hnext'
    | subblock hnext' => rw [hnext] at hnext'; cases hnext'
  | define hnext _ ih =>
    cases h' with
    | stop hnext' => rw [hnext] at hnext'; cases hnext'
    | record hnext' => rw [hnext] at hnext'; cases hnext'
    | define hnext' hrest' => rw [hnext] at hnext'; cases hnext'; exact ih hrest'
    | subblock hnext' => rw [hnext] at hnext'; cases hnext'
  | subblock hnext hskip _ ih =>
    cases h' with
    | stop hnext' => rw [hnext] at hnext'; cases hnext'
    | record hnext' => rw [hnext] at hnext'; cases hnext'
    | define hnext' => rw [hnext] at hnext'; cases hnext'
    | subblock hnext' hskip' hrest' =>
      rw [hnext] at hnext'
      cases hnext'
      rw [hskip] at hskip'
      cases hskip'
      exact ih hrest'

theorem BodySpan.Records.unique {sp : BodySpan} {recs recs' : List BsRecord}
    (h : sp.Records buf recs) (h' : sp.Records buf recs') : recs = recs' := by
  obtain ⟨blk, first, henter, -, hr⟩ := h
  obtain ⟨blk', first', henter', -, hr'⟩ := h'
  rw [henter] at henter'
  cases henter'
  exact hr.unique hr'

/- Attached and read. -/

/-- A module as writers lay it out: MODULE once, its FUNCTION records and then its
FUNCTION_BLOCKs, no more of these than functions with a body, each readable to its end, and
BLOCKINFO complete for them when they come. -/
structure WrittenModule (env : ReaderEnv) (buf : List UInt8) (n : Nat) (m₀ r : AirModule)
    (fns : List (List Nat)) (spans : List BodySpan) : Prop where
  items : trace (readerStep env buf) (itemsAt buf) n (.start m₀) =
    .enter :: (fns.map .function ++ spans.map .body)
  enough : spans.length ≤ bodyRank fns fns.length
  settled : ∀ sp ∈ spans, r.blockinfo 12 = sp.abbrevs
  readable : ∀ sp ∈ spans, ∃ recs, sp.Records buf recs

/-- Every function has the bits of its FUNCTION_BLOCK, and opening it decodes the records of
this block. -/
structure BodiesRight (env bodyEnv : ReaderEnv) (buf : List UInt8) (r : AirModule)
    (fns : List (List Nat)) (spans : List BodySpan) : Prop where
  count : r.numFunctions = fns.length
  attached : ∀ i ops, fns[i]? = some ops → ∃ f, r.functionAt i = some f ∧ f.Declares ops ∧
    f.body = bodyBits (bodyOf fns spans i)
  decoded : ∀ i sp, bodyOf fns spans i = some sp → ∀ recs, sp.Records buf recs →
    ∃ b, OpensBody env bodyEnv r i (.ok b) ∧ b.Decodes recs

theorem WrittenModule.functions {n : Nat} {m₀ r : AirModule}
    (h : WrittenModule env buf n m₀ r fns spans) :
    trace (readerStep env buf) (functionRecordAt buf) n (.start m₀) = fns := by
  have heq : functionRecordAt buf = fun u => (itemsAt buf u).filterMap ModuleItem.record? :=
    funext (functionRecordAt_items buf)
  have hfn : (fns.map ModuleItem.function).filterMap ModuleItem.record? = fns := by
    rw [List.filterMap_map]
    exact List.filterMap_some
  have hbody : (spans.map ModuleItem.body).filterMap ModuleItem.record? = [] := by
    rw [List.filterMap_map, List.filterMap_eq_nil_iff]
    exact fun _ _ => rfl
  rw [heq, trace_filterMap, h.items, List.filterMap_cons_none rfl, List.filterMap_append, hfn,
    hbody, List.append_nil]

theorem WrittenModule.bounds {n : Nat} {m₀ r : AirModule}
    (h : WrittenModule env buf n m₀ r fns spans) {sp : BodySpan} (hsp : sp ∈ spans) :
    0 < sp.start ∧ sp.start < sp.stop := by
  have hmem : .body sp ∈ trace (readerStep env buf) (itemsAt buf) n (.start m₀) := by
    rw [h.items]
    exact List.mem_cons_of_mem _ (List.mem_append_right _ (List.mem_map_of_mem hsp))
  exact span_bounds hmem

theorem WrittenModule.ne_nil {n : Nat} {m₀ r : AirModule}
    (h : WrittenModule env buf n m₀ r fns spans) : buf ≠ [] := by
  rintro rfl
  obtain ⟨u, -, hmem⟩ := exists_of_mem_trace (by rw [h.items]; exact List.mem_cons_self)
  have henters : entersModule [] u = true := by
    rw [itemsAt, List.mem_append, List.mem_append] at hmem
    rcases hmem with (hmem | hmem) | hmem
    · split_ifs at hmem with he
      · exact he
      · cases hmem
    · obtain ⟨ops, -, hops⟩ := List.mem_map.1 hmem
      cases hops
    · obtain ⟨sp, -, hsp⟩ := List.mem_map.1 hmem
      cases hsp
  rw [entersModule] at henters
  split at henters
  · split at henters
    · rename_i blk first henter
      obtain ⟨p, hcode⟩ := blockEnter_code henter
      have hm := (readBits_moves hcode).1
      have hle := hm.2
      have hlt := hm.1
      rw [List.length_nil] at hle
      omega
    · cases henters
  · cases henters

theorem mem_of_bodyOf {i : Nat} {sp : BodySpan} (h : bodyOf fns spans i = some sp) :
    sp ∈ spans ∧ ∃ ops, fns[i]? = some ops ∧ hasBody ops = true := by
  rw [bodyOf] at h
  split at h
  · cases h
  · rename_i ops hops
    split_ifs at h with hb
    exact ⟨List.mem_of_getElem? h, ops, hops, hb⟩

/-- Each FUNCTION_BLOCK is that of a function. -/
theorem exists_bodyOf (h : spans.length ≤ bodyRank fns fns.length) {sp : BodySpan}
    (hsp : sp ∈ spans) : ∃ i ops, fns[i]? = some ops ∧ bodyOf fns spans i = some sp := by
  obtain ⟨k, hk, hget⟩ := List.getElem_of_mem hsp
  obtain ⟨i, ops, hops, hb, hr⟩ := exists_bodyRank (Nat.lt_of_lt_of_le hk h)
  refine ⟨i, ops, hops, ?_⟩
  rw [bodyOf, hops]
  simp only [if_pos hb]
  rw [hr, List.getElem?_eq_getElem hk, hget]

/-- For a module so laid out, with memory enough: the bodies are right if and only if at each
FUNCTION record the arena ended where the function table ended, and every FUNCTION_BLOCK lies
in a block of width 3 and has no more records than there are places for instructions. -/
theorem function_bodies_iff (env bodyEnv : ReaderEnv) {blob buf : List UInt8} {n : Nat}
    {m₀ m r : AirModule} (h : OpenRun env blob buf n m₀ m r) (hu : r.arena.used ≤ 2^32)
    (hw : WrittenModule env buf n m₀ r fns spans)
    (hmem : ∀ i f, bodyOf fns spans i ≠ none → r.functionAt i = some f →
      OpenSuffices bodyEnv r f) :
    BodiesRight env bodyEnv buf r fns spans ↔
      (∀ s, Reaches (readerStep env buf) (.start m₀) s → TableAtEnd buf s) ∧
      ∀ sp ∈ spans, sp.width = parentAbbrevWidth ∧
        ∀ recs, sp.Records buf recs → recs.length ≤ maxInsts := by
  obtain ⟨hstart, hblobs⟩ := initModule_table h.init
  obtain ⟨m₁, hpass, hk⟩ := finishOpen_kept h.finish
  have hu₁ : m₁.arena.used ≤ 2^32 := Nat.le_trans hk.used hu
  have hu₀ : m.arena.used ≤ 2^32 := Nat.le_trans (strtabPass_used hpass) hu₁
  have hnil : Contiguous [] := fun i o ho => by cases ho
  have hsame := finishOpen_sameBodies h.finish
  have htable := (table_run (s := .start m₀) hstart hblobs h.walks hu₀).1
  have hfinal := (htable.strtabPass hpass hu₁).kept hk hu
  have hcopy := ((copy_run (s := .start m₀) (initModule_copy hw.ne_nil h.init
    (Nat.le_trans (run_used_le (s := .start m₀) h.walks) hu₀)) h.walks hu₀).same hsame hu).bitstream
  rw [← contiguous_run (s := .start m₀) hstart hnil h.walks hu₀]
  rw [hw.functions] at hfinal
  simp only [List.nil_append] at hfinal ⊢
  constructor
  · intro hright
    refine ⟨contiguous_of_entries hfinal fun i ops hops => ?_, fun sp hsp => ?_⟩
    · obtain ⟨f, hf, -⟩ := hright.attached i ops hops
      exact ⟨f, hf⟩
    · obtain ⟨i, ops, hops, hbody⟩ := exists_bodyOf hw.enough hsp
      obtain ⟨f, hf, -, hbits⟩ := hright.attached i ops hops
      have hfstart : f.bodyOffset = sp.start := by
        have hfst := congrArg Prod.fst hbits
        rw [hbody] at hfst
        exact hfst
      refine ⟨?_, fun recs hrecs => ?_⟩
      · obtain ⟨recs, hrecs⟩ := hw.readable sp hsp
        obtain ⟨b, hopen, -⟩ := hright.decoded i sp hbody recs hrecs
        obtain ⟨⟨blk, first, henter, hid⟩, -⟩ := opened_body hf hopen
        obtain ⟨blk', first', henter', hid', -⟩ := hrecs
        rw [hcopy, hfstart] at henter
        exact blockEnter_width henter' henter hid' hid
      · obtain ⟨b, hopen, hdec⟩ := hright.decoded i sp hbody recs hrecs
        rw [← hdec.len]
        exact (opened_body hf hopen).2
  · rintro ⟨hc, hspans⟩
    have hbodies := attached_run [.enter] fns spans
      (s := .start m₀) ⟨⟨hstart, fun i o ho => by cases ho⟩, fun w hw' => by cases hw'⟩
      (.inr ⟨rfl, rfl, rfl⟩) (.inl rfl) hw.items hw.enough hc h.walks hu₀
    simp only [List.nil_append] at hbodies
    have hattached : ∀ i ops, fns[i]? = some ops → ∃ f, r.functionAt i = some f ∧
        f.Declares ops ∧ f.body = bodyBits (bodyOf fns spans i) := by
      intro i ops hops
      have hlen : i < (trace (readerStep env buf) (offsetAt buf) n (.start m₀)).length := by
        rw [hfinal.len]
        exact (List.getElem?_eq_some_iff.1 hops).1
      have ho := List.getElem?_eq_getElem hlen
      obtain ⟨f, hf, hdec⟩ := hfinal.carries i _ ops ho hops
      obtain ⟨f₀, hf₀, hbits⟩ := hbodies.bodies i _ ho
      have hin := (hbodies.table.inside _ (List.mem_of_getElem? ho)).2
      rw [sizeofAirFunction] at hin
      obtain ⟨f', hf', hb⟩ := hsame.bodies hu _ f₀ (by omega) hf₀
      rw [hf] at hf'
      cases hf'
      exact ⟨f, functionAt_iff.2 (by rw [hfinal.slot hc ho, hf]), hdec, hb.trans hbits⟩
    refine ⟨by rw [hfinal.num, hfinal.len], hattached, ?_⟩
    intro i sp hbody recs hrecs
    obtain ⟨hsp, ops, hops, hb⟩ := mem_of_bodyOf hbody
    obtain ⟨f, hf, hdec, hbits⟩ := hattached i ops hops
    obtain ⟨h0, hlt⟩ := hw.bounds hsp
    rw [hbody] at hbits
    have hfstart : f.bodyOffset = sp.start := congrArg Prod.fst hbits
    have hflen : f.bodyLength = sp.stop-sp.start := congrArg Prod.snd hbits
    have hinfo : Installable r.blockinfo := by
      obtain ⟨e, he, hlast⟩ := Returns.last ⟨n, h.walks⟩
      have hinv := he.inv (I := fun u => Sane u ∧ Installable u.m.blockinfo)
        (fun a b ha hst => ⟨(readerStep_ptr ha.1 hst).sane, readerStep_installable ha.1 ha.2 hst⟩)
        ⟨(initModule_sane h.init).1, by
          intro t
          rw [Reader.start, initModule_info h.init]
          exact Nat.zero_le _⟩
      rw [finishOpen_info h.finish, (readerStep_finished hlast).1]
      exact hinv.2
    refine opens_body hinfo ?_ hf (by rw [hdec.proto, hb]; rfl) (by omega) (by omega) hfstart
      (by rw [hcopy]; exact hrecs) (hspans sp hsp).1 (hw.settled sp hsp)
      ((hspans sp hsp).2 recs hrecs) (hmem i f (by rw [hbody]; exact Option.some_ne_none _) hf)
    rw [hfinal.num, hfinal.len]
    exact (List.getElem?_eq_some_iff.1 hops).1

/-- Opening `f` comes to an end within `n` iterations, with memory enough at each. -/
def opensWithin (env : ReaderEnv) (n : Nat) (m : AirModule) (f : AirFunction) : Bool :=
  match startBody env m f with
  | .error .outOfMemory => false
  | .error _ => true
  | .ok s =>
    (match run (bodyStep env m.blockinfo m.bitstream) n s with
      | .inr _ => true
      | .inl _ => false) &&
    (trace (bodyStep env m.blockinfo m.bitstream) (fun t => [decide (t.b.arena.used ≤ 2^32) &&
      match bodyStep env m.blockinfo m.bitstream t with
        | .inr .outOfMemory => false
        | _ => true]) n s).all id

theorem openSuffices_of_within {n : Nat} {f : AirFunction} (h : opensWithin env n m f = true) :
    OpenSuffices env m f := by
  rw [opensWithin] at h
  split at h
  · cases h
  · rename_i st hst hne
    rw [OpenSuffices, hne]
    exact ⟨fun heq => hst (Except.error.inj heq), fun s hs => by cases hs⟩
  · rename_i s hs
    rw [Bool.and_eq_true] at h
    obtain ⟨hrun, hall⟩ := h
    refine ⟨by rw [hs]; exact fun heq => (by cases heq), fun s' hs' t ht => ?_⟩
    rw [hs] at hs'
    cases hs'
    split at hrun
    · rename_i r hr
      have hmem := ht.mem_trace (f := fun t => [decide (t.b.arena.used ≤ 2^32) &&
        match bodyStep env m.blockinfo m.bitstream t with
          | .inr .outOfMemory => false
          | _ => true]) hr (List.mem_singleton_self _)
      have hhere := List.all_eq_true.1 hall _ hmem
      simp only [id_eq, Bool.and_eq_true, decide_eq_true_eq] at hhere
      refine ⟨hhere.1, fun hoom => ?_⟩
      rw [hoom] at hhere
      cases hhere.2
    · cases hrun

/- Two functions with a body and a prototype between them, MODULE with codes of width 3; the
first FUNCTION_BLOCK has a sub-block and an abbreviation. -/
def threeFunctionsBlob : List UInt8 :=
  [222, 192, 23, 11, 0, 0, 0, 0, 20, 0, 0, 0, 84, 0, 0, 0,
   255, 255, 255, 255, 66, 67, 192, 222, 33, 12, 0, 0, 18, 0, 0, 0,
   67, 14, 32, 40, 0, 96, 0, 134, 28, 129, 96, 0, 1, 32, 12, 57,
   2, 193, 0, 0, 64, 8, 3, 1, 6, 0, 0, 0, 19, 4, 65, 60,
   12, 0, 0, 0, 1, 0, 0, 0, 27, 130, 3, 0, 34, 42, 144, 161,
   2, 0, 0, 0, 97, 32, 0, 0, 2, 0, 0, 0, 19, 4, 194, 44,
   65, 48, 10, 0, 0, 0, 0, 0]

/- The same with codes of width 4. -/
def wideModuleBlob : List UInt8 :=
  [222, 192, 23, 11, 0, 0, 0, 0, 20, 0, 0, 0, 84, 0, 0, 0,
   255, 255, 255, 255, 66, 67, 192, 222, 33, 16, 0, 0, 18, 0, 0, 0,
   131, 28, 64, 80, 0, 192, 0, 12, 114, 4, 130, 1, 4, 128, 48, 200,
   17, 8, 6, 0, 0, 66, 48, 16, 6, 0, 0, 0, 19, 4, 65, 60,
   12, 0, 0, 0, 1, 0, 0, 0, 27, 130, 3, 0, 34, 42, 144, 161,
   2, 0, 0, 0, 193, 64, 0, 0, 2, 0, 0, 0, 19, 4, 194, 44,
   65, 48, 10, 0, 0, 0, 0, 0]

def threeFunctions : List (List Nat) := [[0, 1, 5, 0, 0, 3, 0], [1, 2, 6, 0, 1, 0, 2], [1, 2, 6, 0, 0, 0, 2]]

def twoSpans (width start₁ : Nat) : List BodySpan :=
  [⟨width, start₁, 480, []⟩, ⟨width, 480, 608, []⟩]

/-- What is checked of the two blobs: they are laid out so, and memory suffices to open them. -/
def laidOut (width start₁ : Nat) (buf : List UInt8) (m₀ r : AirModule) : Bool :=
  decide (r.arena.used ≤ 2^32) &&
  decide (trace (readerStep allGranted buf) (itemsAt buf) 12 (.start m₀) =
    .enter :: (threeFunctions.map .function ++ (twoSpans width start₁).map .body)) &&
  decide (r.blockinfo 12 = []) &&
  ((twoSpans width start₁).all fun sp => match sp.read buf 20 with
    | some recs => decide (recs.length ≤ maxInsts)
    | none => false) &&
  (List.range 3).all fun i => match r.functionAt i with
    | some f => opensWithin allGranted 12 r f
    | none => true

theorem laidOut_written {width start₁ : Nat} {m₀ r : AirModule}
    (h : laidOut width start₁ buf m₀ r = true) : r.arena.used ≤ 2^32 ∧
    WrittenModule allGranted buf 12 m₀ r threeFunctions (twoSpans width start₁) ∧
    (∀ sp ∈ twoSpans width start₁, ∀ recs, sp.Records buf recs → recs.length ≤ maxInsts) ∧
    ∀ i f, bodyOf threeFunctions (twoSpans width start₁) i ≠ none → r.functionAt i = some f →
      OpenSuffices allGranted r f := by
  simp only [laidOut, Bool.and_eq_true, decide_eq_true_eq] at h
  obtain ⟨⟨⟨⟨hu, hitems⟩, hinfo⟩, hread⟩, hmem⟩ := h
  have hrecs : ∀ sp ∈ twoSpans width start₁, ∃ recs, sp.Records buf recs ∧ recs.length ≤ maxInsts := by
    intro sp hsp
    have hone := List.all_eq_true.1 hread sp hsp
    split at hone
    · rename_i recs hr
      exact ⟨recs, BodySpan.records_of_read hr, of_decide_eq_true hone⟩
    · cases hone
  refine ⟨hu, ⟨hitems, show 2 ≤ bodyRank threeFunctions 3 by decide, ?_, ?_⟩, ?_, ?_⟩
  · intro sp hsp
    rcases List.mem_cons.1 hsp with rfl | hsp
    · exact hinfo
    · rw [List.mem_singleton.1 hsp]
      exact hinfo
  · intro sp hsp
    obtain ⟨recs, hr, -⟩ := hrecs sp hsp
    exact ⟨recs, hr⟩
  · intro sp hsp recs hr
    obtain ⟨recs', hr', hle⟩ := hrecs sp hsp
    rw [hr.unique hr']
    exact hle
  · intro i f hbody hf
    have hi : i < threeFunctions.length := by
      by_contra hge
      rw [bodyOf, List.getElem?_eq_none (Nat.not_lt.1 hge)] at hbody
      exact hbody rfl
    have hfits := List.all_eq_true.1 hmem i (List.mem_range.2 hi)
    rw [hf] at hfits
    exact openSuffices_of_within hfits

theorem function_bodies_three : ∃ buf m₀ m r spans,
    OpenRun allGranted threeFunctionsBlob buf 12 m₀ m r ∧ spans.length = 2 ∧
    BodiesRight allGranted allGranted buf r threeFunctions spans := by
  obtain ⟨buf, m₀, m, r, h, hp⟩ := openRun_of_accepted allGranted 12 threeFunctionsBlob
    (fun buf m₀ r => laidOut 3 235 buf m₀ r &&
      (trace (readerStep allGranted buf) (fun s => [decide (TableAtEnd buf s)]) 12
        (.start m₀)).all id) (by decide +kernel)
  rw [Bool.and_eq_true] at hp
  obtain ⟨hu, hw, hcap, hmem⟩ := laidOut_written hp.1
  refine ⟨buf, m₀, m, r, twoSpans 3 235, h, rfl,
    (function_bodies_iff allGranted allGranted h hu hw hmem).2 ⟨fun s hs => ?_, fun sp hsp => ?_⟩⟩
  · have hall := hs.mem_trace (f := fun s => [decide (TableAtEnd buf s)]) h.walks
      (List.mem_singleton_self _)
    exact of_decide_eq_true (List.all_eq_true.1 hp.2 _ hall)
  · refine ⟨?_, hcap sp hsp⟩
    rcases List.mem_cons.1 hsp with rfl | hsp
    · rfl
    · rw [List.mem_singleton.1 hsp]
      rfl

/-- Function `i` is refused, and no block 12 is entered at its offset. -/
def opensElsewhere (r : AirModule) (i : Nat) : Bool :=
  (match airFunctionBodyOpen allGranted allGranted 12 r i with
    | some (.error .protocol) => true
    | _ => false) &&
  match r.functionAt i with
  | some f =>
    match blockEnter r.bitstream parentAbbrevWidth (some r.blockinfo) f.bodyOffset with
    | some (blk, _) => decide (blk.blockId ≠ 12)
    | none => true
  | none => false

/-- In the module with wider codes no body is opened. -/
theorem function_bodies_wide : ∃ buf m₀ m r spans,
    OpenRun allGranted wideModuleBlob buf 12 m₀ m r ∧
    WrittenModule allGranted buf 12 m₀ r threeFunctions spans ∧
    (∀ i f, bodyOf threeFunctions spans i ≠ none → r.functionAt i = some f →
      OpenSuffices allGranted r f) ∧
    OpensBody allGranted allGranted r 0 (.error .protocol) ∧
    OpensBody allGranted allGranted r 2 (.error .protocol) ∧
    ¬ BodiesRight allGranted allGranted buf r threeFunctions spans := by
  obtain ⟨buf, m₀, m, r, h, hp⟩ := openRun_of_accepted allGranted 12 wideModuleBlob
    (fun buf m₀ r => laidOut 4 238 buf m₀ r && [0, 2].all (opensElsewhere r)) (by decide +kernel)
  rw [Bool.and_eq_true] at hp
  obtain ⟨hu, hw, -, hmem⟩ := laidOut_written hp.1
  have hopens : ∀ i ∈ [0, 2], OpensBody allGranted allGranted r i (.error .protocol) ∧
      ∀ b, ¬ OpensBody allGranted allGranted r i (.ok b) := by
    intro i hi
    have hone := List.all_eq_true.1 hp.2 i hi
    rw [opensElsewhere, Bool.and_eq_true] at hone
    obtain ⟨hopen, henter⟩ := hone
    constructor
    · split at hopen
      · rename_i heq
        exact ⟨12, heq⟩
      · cases hopen
    · intro b hb
      split at henter
      · rename_i f hf
        obtain ⟨⟨blk, first, hblk, hid⟩, -⟩ := opened_body hf hb
        rw [hblk] at henter
        exact absurd hid (of_decide_eq_true henter)
      · cases henter
  refine ⟨buf, m₀, m, r, twoSpans 4 238, h, hw, hmem, (hopens 0 (by decide)).1,
    (hopens 2 (by decide)).1, fun hright => ?_⟩
  obtain ⟨recs, hrecs⟩ := hw.readable _ List.mem_cons_self
  obtain ⟨b, hb, -⟩ := hright.decoded 0 _ rfl recs hrecs
  exact (hopens 0 (by decide)).2 b hb

end Lagfx
