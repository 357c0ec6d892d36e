import Lagfx.BitcodeReader

/-! What one iteration of the reader does to the module, as far as the function table goes:
most of them only add to the end of the arena. -/
namespace Lagfx
open ByteMemory Bits Machine

variable {env : ReaderEnv} {buf : List UInt8} {m m' m'' : AirModule} {s t : Reader}

def Cell.IsFunction (c : Option Cell) : Prop := ∃ f, c = some (.function f)

/-- The arena has grown at its end only, by no function struct, and the tables that
FUNCTION records and STRTAB fill are as they were. -/
structure ModuleKept (m m' : AirModule) : Prop where
  used : m.arena.used ≤ m'.arena.used
  num : m'.numFunctions = m.numFunctions
  off : m'.functionsOff = m.functionsOff
  strtab : m'.strtabOffset = m.strtabOffset ∧ m'.strtabLen = m.strtabLen
  bitstream : m'.bitstreamOffset = m.bitstreamOffset
  below : m'.arena.used ≤ 2^32 → ∀ o, o < m.arena.used → m'.arena.cells o = m.arena.cells o
  above : m'.arena.used ≤ 2^32 → ∀ o, Cell.IsFunction (m'.arena.cells o) →
    Cell.IsFunction (m.arena.cells o)

theorem ModuleKept.refl (m : AirModule) : ModuleKept m m :=
  ⟨Nat.le_refl _, rfl, rfl, ⟨rfl, rfl⟩, rfl, fun _ _ _ => rfl, fun _ _ h => h⟩

theorem ModuleKept.trans (h : ModuleKept m m') (h' : ModuleKept m' m'') : ModuleKept m m'' where
  used := Nat.le_trans h.used h'.used
  num := by rw [h'.num, h.num]
  off := by rw [h'.off, h.off]
  strtab := ⟨by rw [h'.strtab.1, h.strtab.1], by rw [h'.strtab.2, h.strtab.2]⟩
  bitstream := by rw [h'.bitstream, h.bitstream]
  below hu o ho := by
    rw [h'.below hu o (Nat.lt_of_lt_of_le ho h.used)]
    exact h.below (Nat.le_trans h'.used hu) o ho
  above hu o hf := h.above (Nat.le_trans h'.used hu) o (h'.above hu o hf)

/-- A module with the same arena and the same of these tables. -/
theorem ModuleKept.of_arena (ha : m'.arena.used = m.arena.used) (hc : m'.arena.cells = m.arena.cells)
    (hn : m'.numFunctions = m.numFunctions) (hoff : m'.functionsOff = m.functionsOff)
    (hs : m'.strtabOffset = m.strtabOffset) (hl : m'.strtabLen = m.strtabLen)
    (hb : m'.bitstreamOffset = m.bitstreamOffset) : ModuleKept m m' :=
  ⟨by rw [ha], hn, hoff, ⟨hs, hl⟩, hb, fun _ _ _ => by rw [hc], fun _ _ h => by rwa [hc] at h⟩

theorem align8_le (n : Nat) : n ≤ align8 n := by
  rw [align8]
  omega

/-- A reservation fails and reserves nothing, or it is at the aligned end. -/
theorem arenaReserve_cases (env : ReaderEnv) (a : Arena) (n : Nat) :
    ((arenaReserve env a n).1 = 0 ∧ (arenaReserve env a n).2.used = a.used ∨
      (arenaReserve env a n).1 = u32 (align8 a.used) ∧
        (arenaReserve env a n).2.used = align8 a.used+n) ∧
    (arenaReserve env a n).2.cells = a.cells := by
  simp only [arenaReserve]
  split_ifs
  · exact ⟨.inr ⟨rfl, rfl⟩, rfl⟩
  · exact ⟨.inl ⟨rfl, rfl⟩, rfl⟩
  · exact ⟨.inr ⟨rfl, rfl⟩, rfl⟩

theorem reserve_used_le (env : ReaderEnv) (m : AirModule) (n : Nat) :
    m.arena.used ≤ (m.reserve env n).2.arena.used := by
  have hal := align8_le m.arena.used
  rcases (arenaReserve_cases env m.arena n).1 with ⟨-, h⟩ | ⟨-, h⟩
  · simp only [AirModule.reserve, h, Nat.le_refl]
  · simp only [AirModule.reserve, h]
    omega

theorem reserve_kept (env : ReaderEnv) (m : AirModule) (n : Nat) :
    ModuleKept m (m.reserve env n).2 where
  used := reserve_used_le env m n
  num := rfl
  off := rfl
  strtab := ⟨rfl, rfl⟩
  bitstream := rfl
  below _ o _ := by simp only [AirModule.reserve, (arenaReserve_cases env m.arena n).2]
  above _ o h := by
    simpa only [AirModule.reserve, (arenaReserve_cases env m.arena n).2] using h

/-- Where a successful reservation below 4 GiB lies. -/
theorem reserve_off {n : Nat} (h : (m.reserve env n).1 ≠ 0)
    (hu : (m.reserve env n).2.arena.used ≤ 2^32) :
    (m.reserve env n).1 = align8 m.arena.used ∧
      (m.reserve env n).2.arena.used = align8 m.arena.used+n := by
  rcases (arenaReserve_cases env m.arena n).1 with ⟨h0, -⟩ | ⟨hoff, hused⟩
  · exact absurd h0 h
  · have hoff' : (m.reserve env n).1 = align8 m.arena.used % 2^32 := hoff
    have hused' : (m.reserve env n).2.arena.used = align8 m.arena.used+n := hused
    refine ⟨?_, hused'⟩
    by_cases htop : align8 m.arena.used = 2^32
    · rw [htop, Nat.mod_self] at hoff'
      exact absurd hoff' h
    · rw [hoff', Nat.mod_eq_of_lt (by omega)]

theorem intern_eq (env : ReaderEnv) (m : AirModule) (n : Nat) (c : Cell) :
    m.intern env n c = ((m.reserve env n).1,
      if (m.reserve env n).1 = 0 then (m.reserve env n).2
      else (m.reserve env n).2.put (m.reserve env n).1 c) := rfl

theorem intern_used (env : ReaderEnv) (m : AirModule) (n : Nat) (c : Cell) :
    (m.intern env n c).2.arena.used = (m.reserve env n).2.arena.used := by
  rw [intern_eq]
  split_ifs <;> rfl

/-- The cells after a reservation that was filled. -/
theorem intern_cells {n : Nat} {c : Cell} (h : (m.intern env n c).1 ≠ 0)
    (hu : (m.intern env n c).2.arena.used ≤ 2^32) :
    (m.intern env n c).1 = align8 m.arena.used ∧
      (m.intern env n c).2.arena.used = align8 m.arena.used+n ∧
      (m.intern env n c).2.arena.cells =
        Function.update m.arena.cells (align8 m.arena.used) (some c) := by
  rw [intern_used] at hu
  have h' : (m.reserve env n).1 ≠ 0 := h
  obtain ⟨hoff, hused⟩ := reserve_off h' hu
  refine ⟨hoff, by rw [intern_used, hused], ?_⟩
  have hcells : (m.reserve env n).2.arena.cells = m.arena.cells :=
    (arenaReserve_cases env m.arena n).2
  simp only [intern_eq, if_neg h']
  rw [← hcells, hoff]
  rfl

theorem intern_kept (env : ReaderEnv) (m : AirModule) (n : Nat) {c : Cell}
    (hc : ∀ f, c ≠ .function f) : ModuleKept m (m.intern env n c).2 := by
  by_cases h0 : (m.reserve env n).1 = 0
  · rw [intern_eq]
    simp only [if_pos h0]
    exact reserve_kept env m n
  · have hkept := reserve_kept env m n
    refine ⟨by rw [intern_used]; exact hkept.used, ?_, ?_, ?_, ?_, ?_, ?_⟩
    · rw [intern_eq]; simp only [if_neg h0]; rfl
    · rw [intern_eq]; simp only [if_neg h0]; rfl
    · rw [intern_eq]; simp only [if_neg h0]; exact ⟨rfl, rfl⟩
    · rw [intern_eq]; simp only [if_neg h0]; rfl
    · intro hu o ho
      rw [(intern_cells h0 hu).2.2, Function.update_of_ne]
      have hal := align8_le m.arena.used
      omega
    · intro hu o ho
      rw [(intern_cells h0 hu).2.2] at ho
      by_cases heq : o = align8 m.arena.used
      · rw [heq, Function.update_self] at ho
        obtain ⟨f, hf⟩ := ho
        exact absurd (Option.some.inj hf) (hc f)
      · rwa [Function.update_of_ne heq] at ho

theorem store_kept (m : AirModule) (p : Ptr) : ModuleKept m (m.store p) :=
  .of_arena rfl rfl rfl rfl rfl rfl rfl

theorem called_kept (m : AirModule) : ModuleKept m m.called :=
  .of_arena rfl rfl rfl rfl rfl rfl rfl

theorem internString_kept (env : ReaderEnv) (m : AirModule) (ops : List Nat) :
    ModuleKept m (arenaInternString env m ops).2 :=
  intern_kept env m _ fun _ h => by cases h

theorem internU32_kept (env : ReaderEnv) (m : AirModule) (ops : List Nat) :
    ModuleKept m (arenaInternU32Array env m ops).2 :=
  intern_kept env m _ fun _ h => by cases h

theorem derive_kept (m : AirModule) : ModuleKept m (deriveTablePtrs m) :=
  .of_arena rfl rfl rfl rfl rfl rfl rfl

/- The walks of sub-blocks; STRTAB apart, each keeps. -/

def Handled.Keeps {α : Type} (m : AirModule) : Handled α → Prop
  | .go m' _ | .leave m' _ => ModuleKept m m'
  | .oom => True

theorem Handled.Keeps.map {α β : Type} {h : Handled α} (hk : h.Keeps m) (f : α → β) :
    (h.map f).Keeps m := by
  cases h <;> exact hk

theorem Handled.Keeps.trans {α : Type} {h : Handled α} (hm : ModuleKept m m') (hk : h.Keeps m') :
    h.Keeps m := by
  cases h with
  | go => exact hm.trans hk
  | leave => exact hm.trans hk
  | oom => trivial

theorem keeps_oom_or {α : Type} {n : Nat} {h : Handled α} (hk : h.Keeps m) :
    (if n = 0 then Handled.oom else h).Keeps m := by
  split_ifs
  · trivial
  · exact hk

theorem constantsRecord_keeps (env : ReaderEnv) (m : AirModule) (w : ConstantsWalk)
    (r : BsRecord) : (constantsRecord env m w r).Keeps m := by
  have hbytes : ∀ (m' : AirModule) kind off len, ModuleKept m m' →
      (w.pushBytes kind off len m').Keeps m := fun m' _ _ _ h => h.trans (store_kept m' _)
  have hs := store_kept m w.ptr
  rw [constantsRecord]
  split_ifs with hfull hset
  · exact .refl m
  · split <;> exact .refl m
  · simp only
    split
    · exact hs
    · exact hs
    · exact hs
    · exact hs
    · exact keeps_oom_or (hbytes _ _ _ _ (hs.trans (internString_kept ..)))
    · exact keeps_oom_or (hbytes _ _ _ _ (hs.trans (internString_kept ..)))
    · exact hbytes _ _ _ _ (hs.trans (internU32_kept ..))
    · exact hbytes _ _ _ _ (hs.trans (internU32_kept ..))
    · exact hs

theorem mdStrings_kept {st : List UInt8} {n bit : Nat} {strings strings' : List Nat}
    {sd : List UInt8} (h : mdStrings env st n m strings sd bit = some (m', strings')) :
    ModuleKept m m' := by
  induction n generalizing m strings sd bit with
  | zero => cases h; exact .refl _
  | succ n ih =>
    rw [mdStrings] at h
    split_ifs at h with hfull
    · cases h; exact .refl _
    · cases hsize : mdStringSize st (2*st.length+1) 0 0 bit with
      | none => rw [hsize] at h; cases h; exact .refl _
      | some size =>
        simp only [hsize] at h
        split_ifs at h with hover hoom
        · cases h; exact .refl _
        · exact (intern_kept env m _ fun _ hc => by cases hc).trans (ih h)

theorem metadataNode_keeps (env : ReaderEnv) (m : AirModule) (w : MetadataWalk)
    (kind : AirMdKind) (name pending : Nat) (r : BsRecord) :
    (metadataNode env m w kind name pending r).Keeps m := by
  rw [metadataNode]
  split_ifs
  · exact .refl m
  · exact .refl m
  · exact keeps_oom_or (internU32_kept ..)

theorem metadataStringsRecord_keeps (env : ReaderEnv) (m : AirModule) (w : MetadataWalk)
    (r : BsRecord) : (metadataStringsRecord env m w r).Keeps m := by
  rw [metadataStringsRecord]
  split
  · split_ifs
    · exact .refl m
    · trivial
    · split
      · trivial
      · rename_i m' strings hmd
        exact (called_kept m).trans (mdStrings_kept hmd)
  · exact .refl m

theorem metadataRecord_keeps (env : ReaderEnv) (m : AirModule) (w : MetadataWalk)
    (r : BsRecord) : (metadataRecord env m w r).Keeps m := by
  rw [metadataRecord]
  split
  · exact metadataStringsRecord_keeps ..
  · split_ifs
    · exact .refl m
    · exact keeps_oom_or (internString_kept ..)
  · exact keeps_oom_or (internString_kept ..)
  · exact metadataNode_keeps ..
  · exact metadataNode_keeps ..
  · exact metadataNode_keeps ..
  · exact metadataNode_keeps ..
  · exact metadataNode_keeps ..
  · exact .refl m
  · exact .refl m
  · exact metadataNode_keeps ..

theorem groupsRecord_keeps (env : ReaderEnv) (m : AirModule) (w : GroupsWalk) (r : BsRecord) :
    (groupsRecord env m w r).Keeps m := by
  rw [groupsRecord]
  split_ifs
  · exact .refl m
  · exact (internU32_kept env m r.ops).trans (store_kept _ _)

theorem typesRecord_keeps (env : ReaderEnv) (m : AirModule) (w : TypesWalk) (r : BsRecord) :
    (typesRecord env m w r).Keeps m := by
  have hs := store_kept m w.ptr
  rw [typesRecord]
  split_ifs with hnum hfull hname hops
  · exact .refl m
  · exact .refl m
  · exact keeps_oom_or (hs.trans (internString_kept ..))
  · by_cases hoom : (arenaInternU32Array env (m.store w.ptr) r.ops).1 = 0 ∧ r.ops ≠ []
    · simp only [if_pos hoom]
      trivial
    · simp only [if_neg hoom]
      exact (hs.trans (internU32_kept ..)).trans (store_kept _ _)
  · exact hs

theorem symtabName_kept (env : ReaderEnv) (m : AirModule) (w : SymtabWalk) (name : List Nat) :
    ModuleKept m (symtabName env m w name) := by
  simp only [symtabName]
  split_ifs
  · exact internString_kept ..
  · exact (internString_kept env m name).trans (store_kept _ _)

theorem symtabRecord_keeps (env : ReaderEnv) (m : AirModule) (w : SymtabWalk) (r : BsRecord) :
    (symtabRecord env m w r).Keeps m := by
  have hs := store_kept m w.ptr
  rw [symtabRecord]
  split_ifs
  · exact .refl m
  · exact .refl m
  · simp only
    split
    · exact hs.trans (symtabName_kept ..)
    · exact hs.trans (symtabName_kept ..)
    · exact hs

theorem innerRecord_keeps (env : ReaderEnv) (m : AirModule) (r : BsRecord) {inner : Inner}
    (h : inner ≠ .strtab) : (inner.record env m r).Keeps m := by
  cases inner with
  | strtab => exact absurd rfl h
  | blockinfo target => exact ModuleKept.refl m
  | constants w => exact (constantsRecord_keeps ..).map _
  | passOver => exact ModuleKept.refl m
  | metadata w => exact (metadataRecord_keeps ..).map _
  | groups w => exact (groupsRecord_keeps ..).map _
  | types w => exact (typesRecord_keeps ..).map _
  | symtab w => exact (symtabRecord_keeps ..).map _

theorem innerDefine_kept (m : AirModule) (abbrevs : List Abbrev) (inner : Inner) :
    ModuleKept m (inner.define m abbrevs) := by
  cases inner with
  | blockinfo target =>
    simp only [Inner.define]
    split
    · exact .refl m
    · exact .of_arena rfl rfl rfl rfl rfl rfl rfl
  | _ => exact .refl m

theorem innerClose_kept (m : AirModule) (inner : Inner) : ModuleKept m (inner.close m) := by
  cases inner <;> exact .of_arena rfl rfl rfl rfl rfl rfl rfl

theorem openInner_kept {id : Nat} {inner : Inner} (h : openInner env m id = some (m', inner)) :
    ModuleKept m m' := by
  simp only [openInner] at h
  split at h
  · cases h; exact .refl _
  all_goals first
    | (cases h; exact .refl _)
    | (split_ifs at h; cases h; exact reserve_kept ..)
    | (split_ifs at h; cases h; exact (reserve_kept env m _).trans (reserve_kept ..))

/- What a step reads. -/

/-- The operands of the FUNCTION record that comes next, if one does and has enough. -/
def functionRecordAt (buf : List UInt8) (s : Reader) : List (List Nat) :=
  match s.sub, s.module with
  | none, some w =>
    match blockNextRecord buf w.blk s.pos with
    | some (.record r, _, _) => if r.code = 8 ∧ offOff+3 ≤ r.ops.length then [r.ops] else []
    | _ => []
  | _, _ => []

/-- The bytes of the STRTAB blob that comes next. -/
def strtabBlobAt (buf : List UInt8) (s : Reader) : List (List UInt8) :=
  match s.sub with
  | some ⟨blk, .strtab⟩ =>
    match blockNextRecord buf blk s.pos with
    | some (.record ⟨_, _, some (b::bs)⟩, _, _) => [b::bs]
    | _ => []
  | _ => []

/-- All an iteration does to the module, as far as the function table goes. -/
inductive Effect (env : ReaderEnv) (buf : List UInt8) (s : Reader) (m' : AirModule) : Prop
  | kept (hf : functionRecordAt buf s = []) (hs : strtabBlobAt buf s = []) (hk : ModuleKept s.m m')
  | function (ops : List Nat) (hf : functionRecordAt buf s = [ops])
    (hs : strtabBlobAt buf s = []) (hlen : offOff+3 ≤ ops.length)
    (hm : functionRecord env s.m ops = some m')
  | body (hf : functionRecordAt buf s = []) (hs : strtabBlobAt buf s = []) (i start len : Nat)
    (hm : m' = (deriveTablePtrs s.m).storeFunction i
      fun f => { f with bodyOffset := start, bodyLength := len })
  | strtab (b : UInt8) (bs : List UInt8) (hf : functionRecordAt buf s = [])
    (hs : strtabBlobAt buf s = [b::bs]) (w : Unit) (code : Nat) (ops : List Nat)
    (hm : strtabRecord env s.m ⟨code, ops, some (b::bs)⟩ = .go m' w)

theorem moduleRecord_effect {r : BsRecord} (h : moduleRecord env m r = some m') :
    (r.code = 8 ∧ offOff+3 ≤ r.ops.length ∧ functionRecord env m r.ops = some m') ∨
      (¬ (r.code = 8 ∧ offOff+3 ≤ r.ops.length) ∧ ModuleKept m m') := by
  have hstring : ∀ (m₁ : AirModule) (n : Nat), (if n = 0 then none else some m₁) = some m' →
      ModuleKept m m₁ → ModuleKept m m' := by
    intro m₁ n hs hk
    split_ifs at hs
    cases hs
    exact hk
  have hs := internString_kept env m r.ops
  simp only [moduleRecord] at h
  split at h
  · exact .inr ⟨by simp_all, hstring _ _ h (hs.trans (.of_arena rfl rfl rfl rfl rfl rfl rfl))⟩
  · exact .inr ⟨by simp_all, hstring _ _ h (hs.trans (.of_arena rfl rfl rfl rfl rfl rfl rfl))⟩
  · exact .inr ⟨by simp_all, hstring _ _ h (hs.trans (.of_arena rfl rfl rfl rfl rfl rfl rfl))⟩
  · rename_i hcode
    by_cases hlen : offOff+3 ≤ r.ops.length
    · exact .inl ⟨hcode, hlen, h⟩
    · rw [functionRecord, if_pos (by omega)] at h
      cases h
      exact .inr ⟨fun hc => hlen hc.2, .refl _⟩
  · cases h
    exact .inr ⟨by simp_all, .of_arena rfl rfl rfl rfl rfl rfl rfl⟩
  · cases h
    exact .inr ⟨by simp_all, .refl _⟩

theorem subStep_effect {w : SubWalk} (hw : s.sub = some w) (h : subStep env buf s w = .inl t) :
    Effect env buf s t.m := by
  obtain ⟨blk, inner⟩ := w
  have hf : functionRecordAt buf s = [] := by simp only [functionRecordAt, hw]
  have kept : ∀ (i : Inner) (m' : AirModule), strtabBlobAt buf s = [] → ModuleKept s.m m' →
      Effect env buf s (i.close m') :=
    fun i m' hs hk => .kept hf hs (hk.trans (innerClose_kept m' i))
  have hother : ∀ ev b p, blockNextRecord buf blk s.pos = some (ev, b, p) →
      (∀ r, ev ≠ .record r) → strtabBlobAt buf s = [] := by
    intro ev b p hnext hev
    rw [strtabBlobAt, hw]
    cases inner with
    | strtab =>
      cases ev with
      | record r => exact absurd rfl (hev r)
      | _ => simp only [hnext]
    | _ => rfl
  simp only [subStep] at h
  by_cases hin : blk.endPos ≤ s.pos
  · have hnext : blockNextRecord buf blk s.pos = some (.stop, blk, s.pos) := by
      rw [blockNextRecord, if_pos hin]
    rw [if_pos hin] at h
    cases h
    exact kept _ _ (hother _ _ _ hnext (by simp)) (.refl _)
  · rw [if_neg hin] at h
    cases hnext : blockNextRecord buf blk s.pos with
    | none =>
      simp only [hnext] at h
      cases h
      refine kept _ _ ?_ (.refl _)
      rw [strtabBlobAt, hw]
      cases inner <;> simp only [hnext]
    | some next =>
      obtain ⟨ev, blk', p⟩ := next
      simp only [hnext] at h
      cases ev with
      | stop =>
        cases h
        exact kept _ _ (hother _ _ _ hnext (by simp)) (.refl _)
      | subblock id =>
        cases h
        exact .kept hf (hother _ _ _ hnext (by simp)) (.refl _)
      | define =>
        cases h
        exact .kept hf (hother _ _ _ hnext (by simp)) (innerDefine_kept ..)
      | record r =>
        simp only at h
        by_cases hstr : inner = .strtab
        · subst hstr
          obtain ⟨code, ops, blob⟩ := r
          cases blob with
          | none =>
            have hs : strtabBlobAt buf s = [] := by simp only [strtabBlobAt, hw, hnext]
            simp only [Inner.record, strtabRecord, Handled.map] at h
            cases h
            exact .kept hf hs (.refl _)
          | some blob =>
            cases blob with
            | nil =>
              have hs : strtabBlobAt buf s = [] := by simp only [strtabBlobAt, hw, hnext]
              simp only [Inner.record, strtabRecord, Handled.map] at h
              cases h
              exact .kept hf hs (.refl _)
            | cons b bs =>
              have hs : strtabBlobAt buf s = [b::bs] := by simp only [strtabBlobAt, hw, hnext]
              simp only [Inner.record] at h
              cases hr : strtabRecord env s.m ⟨code, ops, some (b::bs)⟩ with
              | go m w =>
                rw [hr] at h
                cases h
                exact .strtab b bs hf hs w code ops hr
              | leave m w =>
                simp only [strtabRecord] at hr
                split_ifs at hr
              | oom => rw [hr] at h; cases h
        · have hs : strtabBlobAt buf s = [] := by
            rw [strtabBlobAt, hw]
            cases inner with
            | strtab => exact absurd rfl hstr
            | _ => rfl
          have hkeeps := innerRecord_keeps env s.m r hstr
          cases hr : inner.record env s.m r with
          | go m i =>
            rw [hr] at h hkeeps
            cases h
            exact .kept hf hs hkeeps
          | leave m i =>
            rw [hr] at h hkeeps
            cases h
            exact kept _ _ hs hkeeps
          | oom => rw [hr] at h; cases h

theorem attachBody_effect (hf : functionRecordAt buf s = []) (hs : strtabBlobAt buf s = [])
    (next start stop : Nat) : Effect env buf s (attachBody env s.m next start stop).1 := by
  simp only [attachBody]
  split_ifs
  · exact .body hf hs _ _ _ rfl
  · exact .kept hf hs (derive_kept s.m)

theorem moduleStep_effect {w : ModuleWalk} (hsub : s.sub = none) (hw : s.module = some w)
    (h : moduleStep env buf s w = .inl t) : Effect env buf s t.m := by
  have hs : strtabBlobAt buf s = [] := by simp only [strtabBlobAt, hsub]
  have bail : ∀ (w : ModuleWalk) (p : Nat), functionRecordAt buf s = [] →
      bailModule s.m w p = .inl t → Effect env buf s t.m := by
    intro w p hf hb
    rw [bailModule] at hb
    split_ifs at hb
    cases hb
    exact .kept hf hs (.refl _)
  have hother : ∀ ev b p, blockNextRecord buf w.blk s.pos = some (ev, b, p) →
      (∀ r, ev ≠ .record r) → functionRecordAt buf s = [] := by
    intro ev b p hnext hev
    rw [functionRecordAt, hsub, hw]
    cases ev with
    | record r => exact absurd rfl (hev r)
    | _ => simp only [hnext]
  simp only [moduleStep] at h
  by_cases hin : w.blk.endPos ≤ s.pos
  · have hnext : blockNextRecord buf w.blk s.pos = some (.stop, w.blk, s.pos) := by
      rw [blockNextRecord, if_pos hin]
    rw [if_pos hin] at h
    cases h
    exact .kept (hother _ _ _ hnext (by simp)) hs (.refl _)
  · rw [if_neg hin] at h
    cases hnext : blockNextRecord buf w.blk s.pos with
    | none =>
      rw [hnext] at h
      exact bail _ _ (by simp only [functionRecordAt, hsub, hw, hnext]) h
    | some next =>
      obtain ⟨ev, blk', p⟩ := next
      rw [hnext] at h
      cases ev with
      | stop =>
        cases h
        exact .kept (hother _ _ _ hnext (by simp)) hs (.refl _)
      | define =>
        cases h
        exact .kept (hother _ _ _ hnext (by simp)) hs (.refl _)
      | subblock id =>
        have hf := hother _ _ _ hnext (by simp)
        simp only at h
        by_cases hwalked : id ∈ walkedBlocks
        · rw [if_pos hwalked, enterSub] at h
          split at h
          · exact bail _ _ hf h
          · split at h
            · cases h
            · rename_i ho
              cases h
              exact .kept hf hs (openInner_kept ho)
        · rw [if_neg hwalked, skipSub] at h
          split at h
          · exact bail _ _ hf h
          · by_cases hid : id = 12
            · simp only [if_pos hid] at h
              cases h
              exact attachBody_effect hf hs _ _ _
            · simp only [if_neg hid] at h
              cases h
              exact .kept hf hs (.refl _)
      | record r =>
        simp only at h
        cases hr : moduleRecord env s.m r with
        | none => rw [hr] at h; cases h
        | some m =>
          rw [hr] at h
          cases h
          rcases moduleRecord_effect hr with ⟨hcode, hlen, hfn⟩ | ⟨hno, hk⟩
          · refine .function r.ops ?_ hs hlen hfn
            simp only [functionRecordAt, hsub, hw, hnext, if_pos (And.intro hcode hlen)]
          · refine .kept ?_ hs hk
            simp only [functionRecordAt, hsub, hw, hnext, if_neg hno]

theorem readerStep_effect (h : readerStep env buf s = .inl t) : Effect env buf s t.m := by
  rw [readerStep] at h
  cases hsub : s.sub with
  | some w => rw [hsub] at h; exact subStep_effect hsub h
  | none =>
    rw [hsub] at h
    cases hmod : s.module with
    | some w => rw [hmod] at h; exact moduleStep_effect hsub hmod h
    | none =>
      rw [hmod] at h
      have hm : t.m = s.m := by
        simp only [rootStep] at h
        split_ifs at h
        split at h
        · cases h
        · split_ifs at h
          split at h
          · cases h
          · split_ifs at h
            · cases h; rfl
            · cases h; rfl
            · split at h
              · cases h
              · cases h; rfl
      rw [hm]
      exact .kept (by simp only [functionRecordAt, hsub, hmod])
        (by simp only [strtabBlobAt, hsub]) (.refl _)

/-- A run that ends well ends with the module it has come to. -/
theorem readerStep_finished (h : readerStep env buf s = .inr (.finished m')) :
    m' = s.m ∧ functionRecordAt buf s = [] ∧ strtabBlobAt buf s = [] := by
  rw [readerStep] at h
  cases hsub : s.sub with
  | some w =>
    simp only [hsub, subStep] at h
    split_ifs at h
    split at h
    · cases h
    · cases h
    · cases h
    · cases h
    · split at h <;> cases h
  | none =>
    have hs : strtabBlobAt buf s = [] := by simp only [strtabBlobAt, hsub]
    cases hmod : s.module with
    | none =>
      have hf : functionRecordAt buf s = [] := by simp only [functionRecordAt, hsub, hmod]
      simp only [hsub, hmod, rootStep] at h
      split_ifs at h
      · cases h; exact ⟨rfl, hf, hs⟩
      · split at h
        · cases h; exact ⟨rfl, hf, hs⟩
        · split_ifs at h
          · cases h; exact ⟨rfl, hf, hs⟩
          · split at h
            · cases h
            · split_ifs at h
              split at h
              · cases h; exact ⟨rfl, hf, hs⟩
              · cases h
    | some w =>
      have bail : ∀ (w : ModuleWalk) (p : Nat), bailModule s.m w p = .inr (.finished m') →
          m' = s.m := by
        intro w p hb
        rw [bailModule] at hb
        split_ifs at hb
        cases hb
        rfl
      simp only [hsub, hmod, moduleStep] at h
      split_ifs at h
      cases hnext : blockNextRecord buf w.blk s.pos with
      | none =>
        rw [hnext] at h
        exact ⟨bail _ _ h, by simp only [functionRecordAt, hsub, hmod, hnext], hs⟩
      | some next =>
        obtain ⟨ev, blk', p⟩ := next
        rw [hnext] at h
        cases ev with
        | stop => cases h
        | define => cases h
        | record r =>
          simp only at h
          split at h <;> cases h
        | subblock id =>
          have hf : functionRecordAt buf s = [] := by
            simp only [functionRecordAt, hsub, hmod, hnext]
          refine ⟨?_, hf, hs⟩
          simp only at h
          split_ifs at h
          · rw [enterSub] at h
            split at h
            · exact bail _ _ h
            · split at h <;> cases h
          · rw [skipSub] at h
            split at h
            · exact bail _ _ h
            · cases h

/- Stores to the function table. -/

/-- A store to a struct of the table changes that cell or nothing. -/
theorem storeFunction_cases (m : AirModule) (i : Nat) (g : AirFunction → AirFunction) :
    (m.storeFunction i g).arena.cells = m.arena.cells ∨
      ∃ f, m.arena.cells (m.functionSlot i) = some (.function f) ∧
        (m.storeFunction i g).arena.cells =
          Function.update m.arena.cells (m.functionSlot i) (some (.function (g f))) := by
  rw [AirModule.storeFunction]
  split
  · exact .inl rfl
  · split
    · rename_i f hf
      split_ifs
      · refine .inr ⟨f, ?_, rfl⟩
        rw [AirModule.functionAt] at hf
        split at hf
        · rename_i f' hcell
          cases hf
          exact hcell
        · cases hf
      · exact .inl rfl
    · exact .inl rfl

/-- What such a store leaves alone. -/
structure SameButCells (m m' : AirModule) : Prop where
  used : m'.arena.used = m.arena.used
  num : m'.numFunctions = m.numFunctions
  off : m'.functionsOff = m.functionsOff
  strtab : m'.strtabOffset = m.strtabOffset ∧ m'.strtabLen = m.strtabLen
  bitstream : m'.bitstreamOffset = m.bitstreamOffset
  ptr : m'.functionsPtr = m.functionsPtr
  generation : m'.arena.generation = m.arena.generation

theorem storeFunction_same (m : AirModule) (i : Nat) (g : AirFunction → AirFunction) :
    SameButCells m (m.storeFunction i g) := by
  rw [AirModule.storeFunction]
  split
  · exact ⟨rfl, rfl, rfl, ⟨rfl, rfl⟩, rfl, rfl, rfl⟩
  · split
    · split_ifs <;> exact ⟨rfl, rfl, rfl, ⟨rfl, rfl⟩, rfl, rfl, rfl⟩
    · exact ⟨rfl, rfl, rfl, ⟨rfl, rfl⟩, rfl, rfl, rfl⟩

theorem storeFunction_bytes (m : AirModule) (i : Nat) (g : AirFunction → AirFunction) {o : Nat}
    {bs : List UInt8} (h : m.arena.cells o = some (.bytes bs)) :
    (m.storeFunction i g).arena.cells o = some (.bytes bs) := by
  rcases storeFunction_cases m i g with hc | ⟨f, hf, hc⟩
  · rw [hc, h]
  · have hne : o ≠ m.functionSlot i := by
      intro heq
      rw [heq, hf] at h
      cases h
    rw [hc, Function.update_of_ne hne, h]

theorem functionRecord_cells {ops : List Nat} (hlen : offOff+3 ≤ ops.length)
    (h : functionRecord env m ops = some m') (hu : m'.arena.used ≤ 2^32) :
    align8 m.arena.used ≠ 0 ∧ m'.arena.used = align8 m.arena.used+sizeofAirFunction ∧
    m'.arena.cells = Function.update m.arena.cells (align8 m.arena.used)
      (some (.function (recordFunction ops))) ∧
    m'.numFunctions = m.numFunctions+1 ∧
    m'.functionsOff = if m.numFunctions = 0 then align8 m.arena.used else m.functionsOff := by
  rw [functionRecord, if_neg (by omega)] at h
  have hkept : (m.intern env sizeofAirFunction (.function (recordFunction ops))).2.numFunctions =
      m.numFunctions ∧ (m.intern env sizeofAirFunction
        (.function (recordFunction ops))).2.functionsOff = m.functionsOff := by
    rw [intern_eq]
    split_ifs <;> exact ⟨rfl, rfl⟩
  simp only at h
  by_cases h0 : (m.intern env sizeofAirFunction (.function (recordFunction ops))).1 = 0
  · rw [if_pos h0] at h
    cases h
  · rw [if_neg h0, hkept.1] at h
    have hused : (m.intern env sizeofAirFunction
        (.function (recordFunction ops))).2.arena.used ≤ 2^32 := by
      split_ifs at h <;> (cases h; exact hu)
    obtain ⟨hoff, hend, hcells⟩ := intern_cells h0 hused
    rw [hoff] at h h0
    by_cases hn : m.numFunctions = 0
    · rw [if_pos hn] at h
      cases h
      exact ⟨h0, hend, hcells, by rw [hn], by rw [if_pos hn]⟩
    · rw [if_neg hn] at h
      cases h
      exact ⟨h0, hend, hcells, rfl, by rw [if_neg hn, ← hkept.2]⟩

theorem functionRecord_fields {ops : List Nat} (h : functionRecord env m ops = some m') :
    m.arena.used ≤ m'.arena.used ∧
    (m'.strtabOffset = m.strtabOffset ∧ m'.strtabLen = m.strtabLen) ∧
    m'.bitstreamOffset = m.bitstreamOffset := by
  rw [functionRecord] at h
  split_ifs at h
  · cases h; exact ⟨Nat.le_refl _, ⟨rfl, rfl⟩, rfl⟩
  · have hi : m.arena.used ≤
        (m.intern env sizeofAirFunction (.function (recordFunction ops))).2.arena.used ∧
        ((m.intern env sizeofAirFunction (.function (recordFunction ops))).2.strtabOffset =
          m.strtabOffset ∧
        (m.intern env sizeofAirFunction (.function (recordFunction ops))).2.strtabLen =
          m.strtabLen) ∧
        (m.intern env sizeofAirFunction (.function (recordFunction ops))).2.bitstreamOffset =
          m.bitstreamOffset := by
      refine ⟨by rw [intern_used]; exact reserve_used_le env m _, ?_, ?_⟩
      · rw [intern_eq]; split_ifs <;> exact ⟨rfl, rfl⟩
      · rw [intern_eq]; split_ifs <;> rfl
    simp only at h
    split_ifs at h <;> (cases h; exact hi)

/-- The blob lies at the end of the arena, and STRTAB is this blob from now on. -/
theorem strtabRecord_cells {b : UInt8} {bs : List UInt8} {code : Nat} {ops : List Nat} {w : Unit}
    (h : strtabRecord env m ⟨code, ops, some (b::bs)⟩ = .go m' w) :
    ∃ m₁, ModuleKept m m₁ ∧ m' = { m₁ with strtabOffset := m'.strtabOffset, strtabLen := bs.length+1 } ∧
      m'.strtabOffset ≠ 0 ∧ (m'.arena.used ≤ 2^32 →
        m'.strtabOffset < m'.arena.used ∧
          m'.arena.cells m'.strtabOffset = some (.bytes (b::bs))) := by
  simp only [strtabRecord] at h
  by_cases h0 : (m.intern env (bs.length+1) (.bytes (b::bs))).1 = 0
  · rw [if_pos h0] at h
    cases h
  · rw [if_neg h0] at h
    cases h
    have hk := intern_kept env m (bs.length+1) (c := .bytes (b::bs)) fun f hc => by cases hc
    refine ⟨(m.intern env (bs.length+1) (.bytes (b::bs))).2, hk, rfl, h0, ?_⟩
    intro hu
    obtain ⟨hoff, hend, hcells⟩ := intern_cells h0 hu
    simp only [hoff, hend, hcells, Function.update_self, and_true]
    omega

/- What every iteration does. -/

theorem Effect.used_le (h : Effect env buf s m') : s.m.arena.used ≤ m'.arena.used := by
  cases h with
  | kept hf hs hk => exact hk.used
  | function ops hf hs hlen hm => exact (functionRecord_fields hm).1
  | body hf hs i start len hm => rw [hm, (storeFunction_same _ _ _).used]; exact Nat.le_refl _
  | strtab b bs hf hs w code ops hm =>
    obtain ⟨m₁, hk, heq, -⟩ := strtabRecord_cells hm
    rw [heq]
    exact hk.used

/-- Bytes once in the arena stay, as long as its offsets have 32 bits. -/
theorem Effect.bytes (h : Effect env buf s m') (hu : m'.arena.used ≤ 2^32) {o : Nat}
    {bs : List UInt8} (ho : o < s.m.arena.used) (hb : s.m.arena.cells o = some (.bytes bs)) :
    m'.arena.cells o = some (.bytes bs) := by
  cases h with
  | kept hf hs hk => rw [hk.below hu o ho, hb]
  | function ops hf hs hlen hm =>
    have hal := align8_le s.m.arena.used
    rw [(functionRecord_cells hlen hm hu).2.2.1, Function.update_of_ne (by omega), hb]
  | body hf hs i start len hm => rw [hm]; exact storeFunction_bytes _ _ _ hb
  | strtab b bs' hf hs w code ops hm =>
    obtain ⟨m₁, hk, heq, -⟩ := strtabRecord_cells hm
    rw [heq] at hu ⊢
    rw [show (AirModule.arena _).cells o = m₁.arena.cells o from rfl, hk.below hu o ho, hb]

theorem Effect.bitstream (h : Effect env buf s m') : m'.bitstreamOffset = s.m.bitstreamOffset := by
  cases h with
  | kept hf hs hk => exact hk.bitstream
  | function ops hf hs hlen hm => exact (functionRecord_fields hm).2.2
  | body hf hs i start len hm => rw [hm, (storeFunction_same _ _ _).bitstream]; rfl
  | strtab b bs hf hs w code ops hm =>
    obtain ⟨m₁, hk, heq, -⟩ := strtabRecord_cells hm
    rw [heq]
    exact hk.bitstream

theorem Effect.strtab_fields (h : Effect env buf s m') (hs : strtabBlobAt buf s = []) :
    m'.strtabOffset = s.m.strtabOffset ∧ m'.strtabLen = s.m.strtabLen := by
  cases h with
  | kept hf _ hk => exact hk.strtab
  | function ops hf _ hlen hm => exact (functionRecord_fields hm).2.1
  | body hf _ i start len hm => rw [hm]; exact (storeFunction_same _ _ _).strtab
  | strtab b bs hf hs' w code ops hm => rw [hs] at hs'; cases hs'

theorem run_used_le {n : Nat} (h : run (readerStep env buf) n s = .inr (.finished m')) :
    s.m.arena.used ≤ m'.arena.used := by
  induction n generalizing s with
  | zero => cases h
  | succ n ih =>
    cases hst : readerStep env buf s with
    | inl t =>
      rw [run_succ_inl hst] at h
      exact Nat.le_trans (readerStep_effect hst).used_le (ih h)
    | inr r =>
      rw [run_succ_inr hst] at h
      cases h
      rw [(readerStep_finished hst).1]

end Lagfx
