import Lagfx.BitcodePointers

/-! When no pointer that the reader hands out or stores through is stale. -/
namespace Lagfx
open ByteMemory Bits Machine

variable {env : ReaderEnv} {buf : List UInt8} {m m' : AirModule} {s t : Reader}

/- What a caller can reach. -/

def AirModule.published (m : AirModule) : List Ptr :=
  m.typesPtr.toList ++ m.types.filterMap AirType.op ++ m.constantsPtr.toList ++
  m.functionsPtr.toList ++ m.groupsPtr.toList ++ m.groups.filterMap ParamAttrGroup.raw ++
  m.metadataPtr.toList ++ m.metadata.filterMap AirMetadata.operands ++
  match m.metadataStrings with
  | none => []
  | some (p, ps) => p::ps

def AirBody.published (b : AirBody) : List Ptr :=
  b.instsPtr :: b.insts.filterMap AirInst.ops ++ b.localConstantsPtr.toList

/- The reader of a body takes each pointer again. -/

structure BodySane (s : BodyReader) : Prop where
  insts : s.b.instsPtr.generation = s.b.arena.generation
  constants : ∀ cb w, s.constants = some (cb, w) → w.ptr.generation = s.b.arena.generation
  stale : s.b.stale = false

theorem body_store_live {b : AirBody} {p : Ptr} (h : p.generation = b.arena.generation) :
    b.store p = b := by
  simp only [AirBody.store, h, ne_eq, not_true_eq_false, decide_false, Bool.or_false]

theorem body_store_ptr (b : AirBody) (off : Nat) : b.store (b.arena.ptr off) = b :=
  body_store_live rfl

theorem pushInst_sane {b : AirBody} (hs : b.stale = false)
    (hp : b.instsPtr.generation = b.arena.generation) (r : BsRecord) (off : Nat) :
    (b.pushInst r off).stale = false ∧
      (b.pushInst r off).instsPtr.generation = (b.pushInst r off).arena.generation := by
  simp only [AirBody.pushInst, body_store_live hp]
  exact ⟨hs, hp⟩

theorem instRecord_sane {b b' : AirBody} {r : BsRecord} (hs : b.stale = false)
    (hp : b.instsPtr.generation = b.arena.generation) (h : instRecord env b r = some b') :
    b'.stale = false ∧ b'.instsPtr.generation = b'.arena.generation := by
  rw [instRecord] at h
  split_ifs at h with hnil
  · cases h
    exact pushInst_sane hs hp r 0
  · simp only at h
    split_ifs at h
    cases h
    exact pushInst_sane (b := (b.reserve env (8*r.ops.length)).2.refresh.put _ _) hs rfl r _

theorem internU32Array_stale (env : ReaderEnv) (b : AirBody) (ops : List Nat) :
    (b.internU32Array env ops).2.stale = b.stale := by
  simp only [AirBody.internU32Array]
  split_ifs <;> rfl

theorem localConstantsRecord_sane {b b' : AirBody} {w w' : ConstantsWalk} {r : BsRecord}
    (hs : b.stale = false) (hp : b.instsPtr.generation = b.arena.generation)
    (hw : w.ptr.generation = b.arena.generation)
    (h : localConstantsRecord env b w r = some (b', w')) : b'.stale = false ∧
      b'.instsPtr.generation = b'.arena.generation ∧ w'.ptr.generation = b'.arena.generation := by
  have hpayload : ∀ {kind : AirConstKind} {p : ConstPayload},
      (((b.internU32Array env r.ops).2.refresh, { w.push kind p with
        ptr := (b.internU32Array env r.ops).2.refresh.arena.ptr w.off }) : AirBody × ConstantsWalk) =
        (b', w') → b'.stale = false ∧
      b'.instsPtr.generation = b'.arena.generation ∧ w'.ptr.generation = b'.arena.generation := by
    intro kind p heq
    cases heq
    exact ⟨(internU32Array_stale env b r.ops).trans hs, rfl, rfl⟩
  have hplain : ∀ {kind : AirConstKind} {p : ConstPayload},
      ((b, w.push kind p) : AirBody × ConstantsWalk) = (b', w') → b'.stale = false ∧
      b'.instsPtr.generation = b'.arena.generation ∧ w'.ptr.generation = b'.arena.generation := by
    intro kind p heq
    cases heq
    exact ⟨hs, hp, hw⟩
  simp only [localConstantsRecord, body_store_live hw, body_store_ptr] at h
  split_ifs at h with hfull hset
  · split at h
    · cases h
      exact ⟨hs, hp, hw⟩
    · cases h
      exact ⟨hs, hp, hw⟩
  · have hr := Option.some.inj h
    split at hr
    · exact hplain hr
    · exact hplain hr
    · exact hplain hr
    · exact hplain hr
    · exact hpayload hr
    · exact hpayload hr
    · exact hplain hr

theorem bodyStep_sane {info : Blockinfo} {s t : BodyReader} (hs : BodySane s)
    (h : bodyStep env info buf s = .inl t) : BodySane t := by
  have hnone : ∀ {b : AirBody} (cb : BsBlock) (w : ConstantsWalk),
      (none : Option (BsBlock × ConstantsWalk)) = some (cb, w) →
      w.ptr.generation = b.arena.generation := by
    intro b cb w hw
    cases hw
  rw [bodyStep] at h
  cases hc : s.constants with
  | some c =>
    obtain ⟨cb, w⟩ := c
    have hw := hs.constants cb w hc
    simp only [hc, localConstantsStep] at h
    split_ifs at h
    · cases h
      exact ⟨hs.insts, hnone, hs.stale⟩
    · split at h
      · cases h
        exact ⟨hs.insts, hnone, hs.stale⟩
      · cases h
        exact ⟨hs.insts, hnone, hs.stale⟩
      · cases h
        exact ⟨hs.insts, fun cb' w' hw' => by cases hw'; exact hw, hs.stale⟩
      · cases h
        exact ⟨hs.insts, fun cb' w' hw' => by cases hw'; exact hw, hs.stale⟩
      · split at h
        · cases h
          exact ⟨hs.insts, hnone, hs.stale⟩
        · rename_i hrec
          cases h
          obtain ⟨hst, hi, hw'⟩ := localConstantsRecord_sane hs.stale hs.insts hw hrec
          exact ⟨hi, fun cb' w' heq => by cases heq; exact hw', hst⟩
  | none =>
    simp only [hc] at h
    by_cases hin : s.blk.endPos ≤ s.pos
    · rw [if_pos hin] at h
      cases h
    rw [if_neg hin] at h
    split at h
    · cases h
    · cases h
    · rw [bodySubblock] at h
      split_ifs at h with hid
      · split at h
        · cases h
        · simp only at h
          split_ifs at h
          cases h
          exact ⟨rfl, fun cb' w' heq => by cases heq; rfl, hs.stale⟩
      · split at h
        · cases h
        · cases h
          exact ⟨hs.insts, hnone, hs.stale⟩
    · cases h
      exact ⟨hs.insts, hnone, hs.stale⟩
    · split_ifs at h
      split at h
      · cases h
      · rename_i hrec
        cases h
        obtain ⟨hst, hi⟩ := instRecord_sane hs.stale hs.insts hrec
        exact ⟨hi, hnone, hst⟩

theorem bodyStep_finished {info : Blockinfo} {s : BodyReader} {b : AirBody}
    (h : bodyStep env info buf s = .inr (.finished b)) : b = s.b := by
  rw [bodyStep] at h
  split at h
  · simp only [localConstantsStep] at h
    split_ifs at h
    split at h
    · cases h
    · cases h
    · cases h
    · cases h
    · split at h <;> cases h
  · by_cases hin : s.blk.endPos ≤ s.pos
    · rw [if_pos hin] at h
      cases h
      rfl
    · rw [if_neg hin] at h
      split at h
      · cases h; rfl
      · cases h; rfl
      · rw [bodySubblock] at h
        split_ifs at h
        · split at h
          · cases h; rfl
          · simp only at h
            split_ifs at h
            cases h
        · split at h
          · cases h; rfl
          · cases h
      · cases h
      · split_ifs at h
        · cases h; rfl
        · split at h <;> cases h

theorem finishBody_live {b : AirBody} (hp : b.instsPtr.generation = b.arena.generation)
    (hs : b.stale = false) : (finishBody b).stale = false ∧
      ∀ p ∈ (finishBody b).published, p.generation = (finishBody b).arena.generation := by
  rw [finishBody]
  simp only [body_store_live hp]
  refine ⟨hs, ?_⟩
  intro p hmem
  simp only [AirBody.published, List.cons_append, List.mem_cons, List.mem_append,
    List.mem_filterMap, List.mem_map] at hmem
  rcases hmem with rfl | ⟨i, ⟨j, -, rfl⟩, hops⟩ | hlocal
  · exact hp
  · simp only [ptrUnlessZero] at hops
    split_ifs at hops
    cases hops
    rfl
  · simp only [AirBody.localConstantsPtr] at hlocal
    split_ifs at hlocal
    · cases hlocal
    · simp only [Option.toList_some, List.mem_singleton] at hlocal
      rw [hlocal]
      rfl

/-- No pointer of a body is stale, nor was one stored through. -/
theorem body_live {modEnv env : ReaderEnv} {i : Nat} {b : AirBody}
    (h : OpensBody modEnv env m i (.ok b)) : b.stale = false ∧
      ∀ p ∈ b.published, p.generation = b.arena.generation := by
  obtain ⟨n, hn⟩ := h
  simp only [airFunctionBodyOpen] at hn
  split_ifs at hn
  · cases hn
  · cases hn
  · split at hn
    · cases hn
    · rename_i s hstart
      have hs : BodySane s := by
        rw [startBody] at hstart
        split_ifs at hstart
        split at hstart
        · cases hstart
        · split at hstart
          · cases hstart
          · split_ifs at hstart
            simp only at hstart
            split_ifs at hstart
            cases hstart
            exact ⟨rfl, fun cb w hw => (by cases hw), rfl⟩
      split at hn
      · cases hn
      · cases hn
      · rename_i b' hrun
        cases hn
        obtain ⟨e, he, hlast⟩ := Returns.last ⟨n, hrun⟩
        have hsane := he.inv (I := BodySane) (fun s t => bodyStep_sane) hs
        rw [bodyStep_finished hlast]
        exact finishBody_live hsane.insts hsane.stale

/- After the walks. -/

/-- What is done after the walks, when the pointer to the function table is good. -/
structure Passed (m m' : AirModule) : Prop where
  after : m.arena.After m'.arena
  stale : m'.stale = m.stale
  metadata : m'.metadata = m.metadata
  tabled : Tabled m'
  live : ∀ p, m'.functionsPtr = some p → p.generation = m'.arena.generation

theorem Passed.trans {m'' : AirModule} (h : Passed m m') (h' : Passed m' m'') : Passed m m'' :=
  ⟨h.after.trans h'.after, h'.stale.trans h.stale, h'.metadata.trans h.metadata, h'.tabled, h'.live⟩

theorem derive_passed (h : m.arena.Sound) (ht : Tabled m) : Passed m (deriveTablePtrs m) :=
  ⟨.refl h, rfl, rfl, derive_tabled ht, derive_live_functions ht⟩

theorem storeFunction_passed (h : m.arena.Sound) (ht : Tabled m)
    (hp : ∀ p, m.functionsPtr = some p → p.generation = m.arena.generation) (i : Nat)
    (f : AirFunction → AirFunction) : Passed m (m.storeFunction i f) := by
  have hq := storeFunction_quiet h hp i f
  have hsame := storeFunction_same m i f
  refine ⟨hq.after, hq.stale, quiet_metadata hq.tables, ht.of_tables hq.tables, fun p hp' => ?_⟩
  rw [hsame.ptr] at hp'
  rw [hsame.generation]
  exact hp p hp'

/-- A name is stored, and the table pointers are taken again. -/
theorem intern_passed (h : m.arena.Sound) (ht : Tabled m) (n : Nat) (c : Cell) :
    Passed m (deriveTablePtrs (m.intern env n c).2) := by
  have hq := intern_quiet env h n c
  have hd := derive_passed hq.sound (ht.of_tables hq.tables)
  exact ⟨hq.after.trans hd.after, hd.stale.trans hq.stale,
    hd.metadata.trans (quiet_metadata hq.tables), hd.tabled, hd.live⟩

theorem resolveNames_passed {strtabLen left i : Nat} (h : m.arena.Sound) (ht : Tabled m)
    (hp : ∀ p, m.functionsPtr = some p → p.generation = m.arena.generation)
    (hres : resolveNames env strtabLen left i m = some m') : Passed m m' := by
  induction left generalizing i m with
  | zero =>
    cases hres
    exact ⟨.refl h, rfl, rfl, ht, hp⟩
  | succ left ih =>
    have hnext : ∀ {m₁ : AirModule} (k : Nat), Passed m m₁ →
        resolveNames env strtabLen left (i+1)
          (m₁.storeFunction i fun f => { f with nameOffset := k }) = some m' → Passed m m' := by
      intro m₁ k h₁ hr
      have hs := h₁.trans (storeFunction_passed h₁.after.sound h₁.tabled h₁.live i
        fun f => { f with nameOffset := k })
      exact hs.trans (ih hs.after.sound hs.tabled hs.live hr)
    simp only [resolveNames] at hres
    split_ifs at hres
    · exact hnext 0 ⟨.refl h, rfl, rfl, ht, hp⟩ hres
    · exact hnext _ (intern_passed h ht _ _) hres

/-- The table pointer is there and points where the arena was. -/
def TableDangles (m : AirModule) : Prop :=
  ∃ p, m.functionsPtr = some p ∧ p.generation ≠ m.arena.generation

/-- A store to the function table sets `stale` if the pointer dangles. -/
theorem storeFunction_dangling (h : m.arena.Sound) (ht : Tabled m) (i : Nat)
    (f : AirFunction → AirFunction) :
    m.arena.After (m.storeFunction i f).arena ∧ (m.storeFunction i f).metadata = m.metadata ∧
    Tabled (m.storeFunction i f) ∧ (TableDangles (m.storeFunction i f) ↔ TableDangles m) ∧
    ((m.storeFunction i f).stale = true ↔ m.stale = true ∨ TableDangles m) := by
  have hsame := storeFunction_same m i f
  have hdang : TableDangles (m.storeFunction i f) ↔ TableDangles m := by
    rw [TableDangles, TableDangles, hsame.ptr, hsame.generation]
  by_cases hp : ∀ p, m.functionsPtr = some p → p.generation = m.arena.generation
  · have hs := storeFunction_passed h ht hp i f
    have hno : ¬ TableDangles m := by
      rintro ⟨p, hptr, hne⟩
      exact hne (hp p hptr)
    exact ⟨hs.after, hs.metadata, hs.tabled, hdang, by rw [hs.stale]; simp only [hno, or_false]⟩
  · obtain ⟨p, hptr, hne⟩ : TableDangles m := by
      by_contra hno
      exact hp fun p hptr => not_not.1 fun hne => hno ⟨p, hptr, hne⟩
    have hstore : m.storeFunction i f = m.store p := by
      rw [AirModule.storeFunction, hptr]
      simp only [if_neg hne]
      split <;> rfl
    refine ⟨?_, ?_, ?_, hdang, ?_⟩
    · rw [hstore]
      exact store_after h p
    · rw [hstore]
      rfl
    · rw [hstore]
      exact ht.of_tables rfl
    · rw [hstore, store_stale]
      exact ⟨fun _ => .inr ⟨p, hptr, hne⟩, fun _ => .inr hne⟩

theorem clearNames_dangling (left i : Nat) (h : m.arena.Sound) (ht : Tabled m) :
    m.arena.After (clearNames left i m).arena ∧ (clearNames left i m).metadata = m.metadata ∧
    Tabled (clearNames left i m) ∧
    ((clearNames left i m).stale = true ↔ m.stale = true ∨ (0 < left ∧ TableDangles m)) := by
  induction left generalizing i m with
  | zero =>
    refine ⟨.refl h, rfl, ht, ?_⟩
    simp only [clearNames, Nat.lt_irrefl, false_and, or_false]
  | succ left ih =>
    obtain ⟨ha, hmd, htab, hdang, hst⟩ :=
      storeFunction_dangling h ht i fun f => { f with nameOffset := 0 }
    obtain ⟨ha', hmd', htab', hst'⟩ := ih (i+1) ha.sound htab
    refine ⟨ha.trans ha', hmd'.trans hmd, htab', ?_⟩
    rw [clearNames, hst', hst, hdang]
    simp only [Nat.succ_pos, true_and]
    constructor
    · rintro ((hs | hd) | ⟨-, hd⟩)
      · exact .inl hs
      · exact .inr hd
      · exact .inr hd
    · exact .inl

/-- The pass over the names without a STRTAB is through the pointer as it was left. -/
def LoadedStrtab (m : AirModule) : Prop := m.strtabOffset ≠ 0 ∧ 0 < m.strtabLen

theorem strtabPass_facts (h : m.arena.Sound) (ht : Tabled m) (hp : strtabPass env m = some m') :
    m.arena.After m'.arena ∧ m'.metadata = m.metadata ∧ Tabled m' ∧
    (m'.stale = true ↔ m.stale = true ∨ (¬ LoadedStrtab m ∧ TableDangles m)) := by
  rw [strtabPass] at hp
  by_cases hload : m.strtabOffset ≠ 0 ∧ 0 < m.strtabLen
  · rw [if_pos hload] at hp
    have hd := derive_passed h ht
    have hr := hd.trans (resolveNames_passed hd.after.sound hd.tabled hd.live hp)
    refine ⟨hr.after, hr.metadata, hr.tabled, ?_⟩
    rw [hr.stale]
    simp only [LoadedStrtab, hload, ne_eq, not_false_eq_true, and_self, not_true_eq_false,
      false_and, or_false]
  · rw [if_neg hload] at hp
    cases hp
    obtain ⟨ha, hmd, htab, hst⟩ := clearNames_dangling m.numFunctions 0 h ht
    refine ⟨ha, hmd, htab, ?_⟩
    rw [hst]
    constructor
    · rintro (hs | ⟨-, hd⟩)
      · exact .inl hs
      · exact .inr ⟨hload, hd⟩
    · rintro (hs | ⟨-, hd⟩)
      · exact .inl hs
      · refine .inr ⟨Nat.pos_of_ne_zero fun h0 => ?_, hd⟩
        obtain ⟨p, hptr, -⟩ := hd
        rw [ht.functions (ht.count.2 h0)] at hptr
        cases hptr

theorem materializeStrings_facts (h : m.arena.Sound) (ht : Tabled m)
    (hm : materializeStrings env m = some m') : m.arena.After m'.arena ∧
    m'.metadata = m.metadata ∧ m'.stale = m.stale ∧
    (∀ p ps, m'.metadataStrings = some (p, ps) →
      ∀ q ∈ p::ps, q.generation = m'.arena.generation) ∧
    { m' with metadataStrings := none } = { m with arena := m'.arena } := by
  rw [materializeStrings] at hm
  split_ifs at hm with hnil
  · cases hm
    refine ⟨.refl h, rfl, rfl, ?_, ?_⟩
    · intro p ps hs
      rw [ht.made.2] at hs
      cases hs
    · rw [← ht.made.2]
  · simp only at hm
    split_ifs at hm
    cases hm
    refine ⟨arenaReserve_after env h _, rfl, rfl, ?_, ?_⟩
    · intro p ps hs q hq
      cases hs
      rcases List.mem_cons.1 hq with rfl | hq
      · rfl
      · obtain ⟨o, -, rfl⟩ := List.mem_map.1 hq
        rfl
    · simp only [AirModule.reserve, ← ht.made.2]

theorem mem_nodeGenerations {rs : List AirMetadata} {P : Nat → Prop} :
    (∀ g ∈ nodeGenerations rs, P g) ↔
      ∀ p ∈ rs.filterMap AirMetadata.operands, P p.generation := by
  simp only [nodeGenerations, List.mem_filterMap, Option.map_eq_some_iff, forall_exists_index,
    and_imp]
  constructor
  · intro h p r hr hp
    exact h _ r hr p hp rfl
  · intro h g r hr p hp hg
    rw [← hg]
    exact h p r hr hp

/-- After the last derivation only the operand arrays of METADATA can be stale. -/
theorem derived_live (ht : Tabled { m with metadataStrings := none })
    (hs : ∀ p ps, m.metadataStrings = some (p, ps) → ∀ q ∈ p::ps, q.generation = m.arena.generation)
    {q : Option Ptr} (hq : ∀ p, q = some p → p.generation = m.arena.generation) :
    (∀ p ∈ AirModule.published { deriveTablePtrs m with metadataPtr := q },
      p.generation = m.arena.generation) ↔
    ∀ g ∈ nodeGenerations m.metadata, g = m.arena.generation := by
  rw [mem_nodeGenerations]
  constructor
  · intro h p hp
    apply h
    simp only [AirModule.published, List.mem_append]
    exact .inl (.inr hp)
  · intro h p hp
    simp only [AirModule.published, List.mem_append, Option.mem_toList, List.mem_filterMap] at hp
    rcases hp with (((((((hp | hp) | hp) | hp) | hp) | hp) | hp) | hp) | hp
    · simp only [deriveTablePtrs] at hp
      split_ifs at hp with h0
      · rw [(ht.types h0).1] at hp
        cases hp
      · cases hp
        rfl
    · obtain ⟨t, hmem, hop⟩ := hp
      simp only [deriveTablePtrs] at hmem
      split_ifs at hmem with h0
      · rw [(ht.types h0).2] at hmem
        cases hmem
      · obtain ⟨t', -, rfl⟩ := List.mem_map.1 hmem
        simp only [ptrUnlessZero] at hop
        split_ifs at hop
        cases hop
        rfl
    · simp only [deriveTablePtrs] at hp
      split_ifs at hp with h0
      · rw [ht.constants h0] at hp
        cases hp
      · cases hp
        rfl
    · simp only [deriveTablePtrs] at hp
      split_ifs at hp with h0
      · rw [ht.functions h0] at hp
        cases hp
      · cases hp
        rfl
    · simp only [deriveTablePtrs] at hp
      split_ifs at hp with h0
      · rw [(ht.groups h0).1] at hp
        cases hp
      · cases hp
        rfl
    · obtain ⟨t, hmem, hop⟩ := hp
      simp only [deriveTablePtrs] at hmem
      split_ifs at hmem with h0
      · rw [(ht.groups h0).2] at hmem
        cases hmem
      · obtain ⟨t', -, rfl⟩ := List.mem_map.1 hmem
        simp only [ptrUnlessZero] at hop
        split_ifs at hop
        cases hop
        rfl
    · exact hq p hp
    · exact h p (List.mem_filterMap.2 hp)
    · simp only [deriveTablePtrs] at hp
      split at hp
      · cases hp
      · rename_i hsome
        exact hs _ _ hsome p hp

/-- What the caller gets, from the module at the end of the walks. -/
theorem finishOpen_facts {r : AirModule} (h : m.arena.Sound) (ht : Tabled m)
    (hf : finishOpen env m = .ok r) : m.arena.After r.arena ∧
    (r.stale = true ↔ m.stale = true ∨ (¬ LoadedStrtab m ∧ TableDangles m)) ∧
    ((∀ p ∈ r.published, p.generation = r.arena.generation) ↔
      ∀ g ∈ nodeGenerations m.metadata, g = r.arena.generation) := by
  simp only [finishOpen] at hf
  cases hs : strtabPass env m with
  | none => rw [hs] at hf; cases hf
  | some m₁ =>
    obtain ⟨ha, hmd, htab, hst⟩ := strtabPass_facts h ht hs
    simp only [hs] at hf
    cases hm : materializeStrings env m₁ with
    | none => rw [hm] at hf; cases hf
    | some m₂ =>
      obtain ⟨ha₂, hmd₂, hst₂, hstrings, hsame⟩ := materializeStrings_facts ha.sound htab hm
      have htab₂ : Tabled { m₂ with metadataStrings := none } := by
        rw [hsame]
        exact htab.of_tables rfl
      rw [← hst, ← hst₂, ← hmd, ← hmd₂]
      simp only [hm, Except.ok.injEq] at hf
      by_cases hnil : (deriveTablePtrs m₂).metadata = []
      · rw [if_pos hnil] at hf
        rw [← hf]
        exact ⟨ha.trans ha₂, Iff.rfl, derived_live htab₂ hstrings
          fun p hp => by rw [show m₂.metadataPtr = none from htab₂.made.1] at hp; cases hp⟩
      · rw [if_neg hnil] at hf
        rw [← hf]
        exact ⟨ha.trans ha₂, Iff.rfl, derived_live htab₂ hstrings fun p hp => by cases hp; rfl⟩

theorem initModule_sane {m₀ : AirModule} (h : initModule env buf = some m₀) :
    Sane (.start m₀) ∧ m₀.stale = false ∧ m₀.metadata = [] ∧ m₀.functionsPtr = none ∧
      m₀.strtabOffset = 0 ∧ m₀.strtabLen = 0 := by
  simp only [initModule] at h
  split_ifs at h
  cases h
  have hsound : (Arena.init (16*1024) 2).Sound := ⟨by decide, by decide⟩
  have hq := intern_quiet (m := { arena := Arena.init (16*1024) 2 }) env hsound buf.length (.bytes buf)
  have htab : Tabled { arena := Arena.init (16*1024) 2 } :=
    ⟨fun _ => ⟨rfl, rfl⟩, fun _ => rfl, fun _ => ⟨rfl, rfl⟩, fun _ => rfl,
      ⟨fun _ => rfl, fun _ => rfl⟩, ⟨rfl, rfl⟩⟩
  have hstrtab : (AirModule.intern env { arena := Arena.init (16*1024) 2 } buf.length
      (.bytes buf)).2.strtabOffset = 0 ∧ (AirModule.intern env { arena := Arena.init (16*1024) 2 }
        buf.length (.bytes buf)).2.strtabLen = 0 := by
    rw [intern_eq]
    split_ifs
    · exact ⟨rfl, rfl⟩
    · exact ⟨rfl, rfl⟩
  have hc := called_quiet hq.sound
  have hall := hq.trans hc
  refine ⟨⟨hall.sound, htab.of_tables hall.tables, fun w hw => by cases hw⟩, hall.stale,
    quiet_metadata hall.tables, quiet_functions hall.tables, hstrtab.1, hstrtab.2⟩

/- Over whole runs. -/

theorem finished_sub (h : readerStep env buf s = .inr (.finished m)) : s.sub = none := by
  cases hsub : s.sub with
  | none => rfl
  | some w =>
    simp only [readerStep, hsub, subStep] at h
    split_ifs at h
    split at h
    · cases h
    · cases h
    · cases h
    · cases h
    · split at h <;> cases h

/-- The name of the entry that comes next, if one does, does not move the arena; else no
store sees it: it is not granted an offset, and the block has no entry after this one. -/
def NameFits (env : ReaderEnv) (buf : List UInt8) (s : Reader) : Prop :=
  ∀ r, entryAt buf s = [r] → NameMoves env s.m.arena r →
    u32 (align8 s.m.arena.used) = 0 ∧ ∀ t, readerStep env buf s = .inl t →
      ∀ u, ReachesIn (readerStep env buf) InSymtab t u → entryAt buf u = []

theorem entryAt_cases (buf : List UInt8) (s : Reader) :
    entryAt buf s = [] ∨ ∃ r, entryAt buf s = [r] := by
  rw [entryAt]
  split
  · split
    · rename_i r _ _ _
      split_ifs
      · exact .inr ⟨r, rfl⟩
      · exact .inl rfl
    · exact .inl rfl
  · exact .inl rfl

theorem nameFits_of_none (h : entryAt buf s = []) : NameFits env buf s := by
  intro r hr
  rw [h] at hr
  cases hr

/-- An iteration against the rest of the run: what it does to `stale`, and what it leaves. -/
theorem StaleStep.split (h : StaleStep env buf s t) (hst : readerStep env buf s = .inl t) :
    (t.m.stale = false ∧ (Dangling t →
      ∀ u, ReachesIn (readerStep env buf) InSymtab t u → entryAt buf u = [])) ↔
    s.m.stale = false ∧ (Dangling s →
      ∀ u, ReachesIn (readerStep env buf) InSymtab s u → entryAt buf u = []) ∧
      NameFits env buf s := by
  rcases entryAt_cases buf s with hnone | ⟨r, hr⟩
  · have hfit : NameFits env buf s := nameFits_of_none hnone
    by_cases hin : InSymtab s
    · obtain ⟨hsame, hd, hd'⟩ := h.passes hin hnone
      rw [hsame]
      constructor
      · rintro ⟨hs, ht⟩
        refine ⟨hs, fun hds => (reachesIn_forall hin hst).2 ⟨hnone, fun u hu => ?_⟩, hfit⟩
        exact ht (hd' hu.start hds) u hu
      · rintro ⟨hs, ht, -⟩
        exact ⟨hs, fun hdt u hu => ht (hd hdt) u (.head hin hst hu)⟩
    · obtain ⟨hsame, hd⟩ := h.outside hin
      rw [hsame]
      constructor
      · rintro ⟨hs, -⟩
        exact ⟨hs, fun hds => absurd hds.inSymtab hin, hfit⟩
      · rintro ⟨hs, -⟩
        exact ⟨hs, fun hdt => absurd hdt hd⟩
  · have hin := entryAt_inSymtab hr
    by_cases hds : Dangling s
    · have hbad := h.dangling r hr hds
      constructor
      · rintro ⟨hs, -⟩
        rw [hbad] at hs
        cases hs
      · rintro ⟨-, ht, -⟩
        have hnil := ht hds s (.refl hin)
        rw [hr] at hnil
        cases hnil
    by_cases hmove : NameMoves env s.m.arena r
    · obtain ⟨-, hdt, hstale⟩ := h.moves r hr hds hmove
      constructor
      · rintro ⟨hs, ht⟩
        have hboth : ¬ (s.m.stale = true ∨ u32 (align8 s.m.arena.used) ≠ 0) := by
          rw [← hstale, hs]
          exact Bool.false_ne_true
        obtain ⟨hs', hoff⟩ := not_or.1 hboth
        refine ⟨Bool.eq_false_iff.2 hs', fun hd => absurd hd hds, fun r' hr' _ => ⟨not_not.1 hoff, ?_⟩⟩
        intro t' ht'
        rw [hst] at ht'
        cases ht'
        exact ht hdt
      · rintro ⟨hs, -, hfit⟩
        obtain ⟨hoff, hno⟩ := hfit r hr hmove
        refine ⟨Bool.eq_false_iff.2 fun htrue => ?_, fun _ => hno t hst⟩
        rcases hstale.1 htrue with hs' | hne
        · rw [hs] at hs'
          cases hs'
        · exact hne hoff
    · obtain ⟨hsame, hdt⟩ := h.stays r hr hds hmove
      rw [hsame]
      constructor
      · rintro ⟨hs, -⟩
        refine ⟨hs, fun hd => absurd hd hds, fun r' hr' hm => ?_⟩
        rw [hr] at hr'
        cases hr'
        exact absurd hm hmove
      · rintro ⟨hs, -⟩
        exact ⟨hs, fun hd => absurd hd hdt⟩

theorem stale_run {n : Nat} (hs : Sane s)
    (hrun : run (readerStep env buf) n s = .inr (.finished m)) :
    m.stale = false ↔ s.m.stale = false ∧ (Dangling s →
      ∀ u, ReachesIn (readerStep env buf) InSymtab s u → entryAt buf u = []) ∧
      ∀ u, Reaches (readerStep env buf) s u → NameFits env buf u := by
  induction n generalizing s with
  | zero => cases hrun
  | succ n ih =>
    cases hst : readerStep env buf s with
    | inl t =>
      rw [run_succ_inl hst] at hrun
      have hstep := readerStep_ptr hs hst
      rw [ih hstep.sane hrun, reaches_forall hst, ← and_assoc, hstep.stale.split hst]
      simp only [and_assoc]
    | inr r =>
      rw [run_succ_inr hst] at hrun
      cases hrun
      have hsub := finished_sub hst
      have hno := not_inSymtab_none hsub
      rw [(readerStep_finished hst).1]
      constructor
      · intro hm
        refine ⟨hm, fun hd => absurd hd.inSymtab hno, fun u hu => ?_⟩
        rcases reaches_iff.1 hu with rfl | ⟨t, ht, -⟩
        · exact nameFits_of_none (by rw [entryAt, hsub])
        · rw [hst] at ht
          cases ht
      · exact fun h => h.1

/-- STRTAB is loaded once its blob has come. -/
theorem Effect.loaded (h : Effect env buf s m') :
    ¬ LoadedStrtab m' ↔ strtabBlobAt buf s = [] ∧ ¬ LoadedStrtab s.m := by
  by_cases hblob : strtabBlobAt buf s = []
  · obtain ⟨hoff, hlen⟩ := h.strtab_fields hblob
    rw [LoadedStrtab, hoff, hlen]
    exact ⟨fun hno => ⟨hblob, hno⟩, fun hno => hno.2⟩
  · cases h with
    | kept hf hs hk => exact absurd hs hblob
    | function ops hf hs hlen hm => exact absurd hs hblob
    | body hf hs i start len hm => exact absurd hs hblob
    | strtab b bs hf hs w code ops hm =>
      obtain ⟨m₁, -, heq, hne, -⟩ := strtabRecord_cells hm
      have hload : LoadedStrtab m' := ⟨hne, by rw [heq]; exact Nat.succ_pos _⟩
      exact ⟨fun hno => absurd hload hno, fun hno => absurd hno.1 hblob⟩

theorem loaded_run {n : Nat} (hrun : run (readerStep env buf) n s = .inr (.finished m)) :
    ¬ LoadedStrtab m ↔ ¬ LoadedStrtab s.m ∧
      ∀ u, Reaches (readerStep env buf) s u → strtabBlobAt buf u = [] := by
  induction n generalizing s with
  | zero => cases hrun
  | succ n ih =>
    cases hst : readerStep env buf s with
    | inl t =>
      rw [run_succ_inl hst] at hrun
      have hgo := ih hrun
      have he := (readerStep_effect hst).loaded
      rw [reaches_forall hst]
      constructor
      · intro h
        obtain ⟨ht, hall⟩ := hgo.1 h
        exact ⟨(he.1 ht).2, (he.1 ht).1, hall⟩
      · rintro ⟨hs, hblob, hall⟩
        exact hgo.2 ⟨he.2 ⟨hblob, hs⟩, hall⟩
    | inr r =>
      rw [run_succ_inr hst] at hrun
      cases hrun
      obtain ⟨hm, -, hs⟩ := readerStep_finished hst
      rw [hm]
      refine ⟨fun h0 => ⟨h0, fun u hu => ?_⟩, fun h => h.1⟩
      rcases reaches_iff.1 hu with rfl | ⟨t, ht, -⟩
      · exact hs
      · rw [hst] at ht
        cases ht

/- The condition. -/

/-- From each operand array of the last METADATA block on, all that is still reserved fits in
what the arena had then. -/
def NodesFit (env : ReaderEnv) (buf : List UInt8) (s : Reader) (r : AirModule) : Prop :=
  ∀ u v, Reaches (readerStep env buf) s u → nodeAt buf u ≠ [] → readerStep env buf u = .inl v →
    (∀ w, Reaches (readerStep env buf) v w → enteredAt buf w ≠ some 15) →
    r.arena.used ≤ v.m.arena.capacity

/-- Without a STRTAB, all that the walks reserve after the function table was taken last fits
in what the arena had then. -/
def TableFits (env : ReaderEnv) (buf : List UInt8) (s : Reader) (m : AirModule) : Prop :=
  (∀ u, Reaches (readerStep env buf) s u → strtabBlobAt buf u = []) →
    ∀ u v, Reaches (readerStep env buf) s u → DerivesAt buf u → readerStep env buf u = .inl v →
      (∀ w, Reaches (readerStep env buf) v w → ¬ DerivesAt buf w) →
      m.arena.used ≤ v.m.arena.capacity

/-- At the last state of a run no sub-block is entered or skipped. -/
theorem finished_next (h : readerStep env buf s = .inr (.finished m)) {id p : Nat} {blk : BsBlock}
    (hnext : moduleNext buf s = some (.subblock id, blk, p)) :
    (id ∈ walkedBlocks →
      blockEnter buf blk.abbrevWidth (if id = 0 then none else some s.m.blockinfo) p = none) ∧
    (id ∉ walkedBlocks → blockSkip buf blk.abbrevWidth p = none) := by
  have hsub := finished_sub h
  rw [moduleNext, hsub] at hnext
  cases hmod : s.module with
  | none => rw [hmod] at hnext; cases hnext
  | some w =>
    simp only [hmod] at hnext
    have hin : ¬ w.blk.endPos ≤ s.pos := by
      intro hin
      rw [show blockNextRecord buf w.blk s.pos = some (.stop, w.blk, s.pos) by
        simp only [blockNextRecord, if_pos hin]] at hnext
      cases hnext
    simp only [readerStep, hsub, hmod, moduleStep, if_neg hin, hnext] at h
    constructor
    · intro hwalk
      simp only [if_pos hwalk, enterSub] at h
      cases hent : blockEnter buf blk.abbrevWidth (if id = 0 then none else some s.m.blockinfo) p with
      | none => rfl
      | some sub =>
        rw [hent] at h
        simp only at h
        split at h <;> cases h
    · intro hwalk
      simp only [if_neg hwalk, skipSub] at h
      cases hskip : blockSkip buf blk.abbrevWidth p with
      | none => rfl
      | some stop =>
        rw [hskip] at h
        cases h

theorem finished_quiet (h : readerStep env buf s = .inr (.finished m)) :
    enteredAt buf s ≠ some 15 ∧ ¬ DerivesAt buf s := by
  constructor
  · rw [enteredAt]
    split
    · rename_i id blk p hnext
      have hnone := (finished_next h hnext).1
      by_cases hwalk : id ∈ walkedBlocks
      · rw [hnone hwalk]
        simp only [Option.isSome_none, Bool.false_eq_true, and_false, if_false, ne_eq, reduceCtorEq,
          not_false_eq_true]
      · simp only [hwalk, false_and, if_false, ne_eq, reduceCtorEq, not_false_eq_true]
    · exact fun hent => by cases hent
  · rintro (⟨hf, -⟩ | ⟨hb, -⟩)
    · exact hf (readerStep_finished h).2.1
    · rw [bodyAt] at hb
      split at hb
      · rename_i blk p hnext
        rw [(finished_next h hnext).2 (by decide)] at hb
        cases hb
      · cases hb

/-- From a state of a run to its end: the arena has not moved if what is reserved fits. -/
theorem moved_iff {n : Nat} {r : AirModule} {u v : Reader} (hs : Sane s)
    (hrun : run (readerStep env buf) n s = .inr (.finished m)) (hr : m.arena.After r.arena)
    (hu : Reaches (readerStep env buf) s u) (huv : readerStep env buf u = .inl v) :
    v.m.arena.generation = r.arena.generation ↔ r.arena.used ≤ v.m.arena.capacity := by
  obtain ⟨e, he, hlast⟩ := Returns.last ⟨n, hrun⟩
  have hv := hu.trans (reaches_step huv)
  have hafter := (reaches_ptr (reaches_ptr hs hv).1 (hv.to_last he hlast)).2
  rw [← (readerStep_finished hlast).1] at hafter
  rw [← (hafter.trans hr).moved]
  exact eq_comm

theorem nodes_run {n : Nat} {r : AirModule} (hs : Sane s) (h0 : s.nodes = [])
    (hrun : run (readerStep env buf) n s = .inr (.finished m)) (hr : m.arena.After r.arena) :
    (∀ g ∈ nodeGenerations m.metadata, g = r.arena.generation) ↔ NodesFit env buf s r := by
  obtain ⟨e, he, hlast⟩ := Returns.last ⟨n, hrun⟩
  have hval : nodeGenerations m.metadata = e.nodes := by
    rw [Reader.nodes, finished_sub hlast, (readerStep_finished hlast).1]
  have hlog := forall_log Sane (fun s => enteredAt buf s = some 15)
    (fun s t => (nodeAt buf s).map fun _ => t.m.arena.generation) Reader.nodes
    (fun g => g = r.arena.generation) (fun s t hs hst => (readerStep_ptr hs hst).sane)
    (fun s t hs hR hst => by rw [(readerStep_ptr hs hst).nodes, if_neg hR])
    (fun s t hs hR hst => by rw [(readerStep_ptr hs hst).nodes, if_pos hR, List.nil_append])
    hs he hlast (finished_quiet hlast).1
  rw [hval, hlog, h0]
  constructor
  · rintro ⟨-, hall⟩ u v hu hnode huv hno
    obtain ⟨b, hb⟩ := List.exists_mem_of_ne_nil _ hnode
    exact (moved_iff hs hrun hr hu huv).1 (hall u v hu huv hno _ (List.mem_map.2 ⟨b, hb, rfl⟩))
  · intro hfit
    refine ⟨fun _ g hg => (by cases hg), fun u v hu huv hno g hg => ?_⟩
    obtain ⟨b, hb, rfl⟩ := List.mem_map.1 hg
    exact (moved_iff hs hrun hr hu huv).2 (hfit u v hu (List.ne_nil_of_mem hb) huv hno)

theorem table_fits_run {n : Nat} (hs : Sane s) (h0 : s.m.functionsPtr = none)
    (hrun : run (readerStep env buf) n s = .inr (.finished m)) :
    ¬ TableDangles m ↔ ∀ u v, Reaches (readerStep env buf) s u → DerivesAt buf u →
      readerStep env buf u = .inl v →
      (∀ w, Reaches (readerStep env buf) v w → ¬ DerivesAt buf w) →
      m.arena.used ≤ v.m.arena.capacity := by
  obtain ⟨e, he, hlast⟩ := Returns.last ⟨n, hrun⟩
  have hm := (readerStep_finished hlast).1
  have hsound := (reaches_ptr hs he).1.sound
  have hlog := forall_log Sane (DerivesAt buf)
    (fun s t => if DerivesAt buf s then [t.m.arena.generation] else [])
    (fun s => (s.m.functionsPtr.map Ptr.generation).toList)
    (fun g => g = m.arena.generation) (fun s t hs hst => (readerStep_ptr hs hst).sane)
    (fun s t hs hR hst => by
      rw [(readerStep_ptr hs hst).functions, if_neg hR, if_neg hR, List.append_nil])
    (fun s t hs hR hst => by
      rw [(readerStep_ptr hs hst).functions, if_pos hR, if_pos hR]
      rfl)
    hs he hlast (finished_quiet hlast).2
  have hval : ¬ TableDangles m ↔
      ∀ g ∈ (e.m.functionsPtr.map Ptr.generation).toList, g = m.arena.generation := by
    rw [← hm, TableDangles]
    cases m.functionsPtr with
    | none =>
      refine ⟨fun _ g hg => (by cases hg), fun _ hd => ?_⟩
      obtain ⟨p, hp, -⟩ := hd
      cases hp
    | some q =>
      constructor
      · intro hno g hg
        cases List.mem_singleton.1 hg
        exact not_not.1 fun hne => hno ⟨q, rfl, hne⟩
      · rintro hall ⟨p, hp, hne⟩
        cases hp
        exact hne (hall _ (List.mem_singleton_self _))
  rw [hval, hlog, h0]
  have hself : m.arena.After m.arena := by
    rw [hm]
    exact .refl hsound
  constructor
  · rintro ⟨-, hall⟩ u v hu hd huv hno
    refine (moved_iff hs hrun hself hu huv).1 (hall u v hu huv hno _ ?_)
    rw [if_pos hd]
    exact List.mem_singleton_self _
  · intro hfit
    refine ⟨fun _ g hg => (by cases hg), fun u v hu huv hno g hg => ?_⟩
    by_cases hd : DerivesAt buf u
    · rw [if_pos hd, List.mem_singleton] at hg
      rw [hg]
      exact (moved_iff hs hrun hself hu huv).2 (hfit u v hu hd huv hno)
    · rw [if_neg hd] at hg
      cases hg

/- METADATA with one node of one operand, and nothing after it. -/
def nodeBlob : List UInt8 :=
  [222, 192, 23, 11, 0, 0, 0, 0, 20, 0, 0, 0, 28, 0, 0, 0,
   255, 255, 255, 255, 66, 67, 192, 222, 33, 12, 0, 0, 4, 0, 0, 0,
   121, 24, 0, 0, 1, 0, 0, 0, 27, 130, 3, 0, 0, 0, 0, 0]

/- The same with a CONSTANTS block behind it. -/
def nodeConstantsBlob : List UInt8 :=
  [222, 192, 23, 11, 0, 0, 0, 0, 20, 0, 0, 0, 40, 0, 0, 0,
   255, 255, 255, 255, 66, 67, 192, 222, 33, 12, 0, 0, 7, 0, 0, 0,
   121, 24, 0, 0, 1, 0, 0, 0, 27, 130, 3, 0, 89, 24, 0, 0,
   1, 0, 0, 0, 0, 0, 0, 0, 0, 0, 0, 0]

end Lagfx
