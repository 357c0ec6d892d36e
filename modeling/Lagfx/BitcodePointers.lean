import Lagfx.BitcodeMoves
import Lagfx.BitcodeFunctions

/-! Which pointers of a returned module, and which stores of the reader, go to the arena as it
is, over whole runs of the reader and of the reader of a body. -/
namespace Lagfx
open ByteMemory Bits Machine

variable {env : ReaderEnv} {buf : List UInt8} {m m' : AirModule} {s t : Reader}

/- One iteration, case by case. -/

/-- What an iteration in a sub-block comes to. -/
inductive SubCase (env : ReaderEnv) (buf : List UInt8) (s t : Reader) (w : SubWalk) : Prop
  | go (r : BsRecord) (blk : BsBlock) (p : Nat) (m : AirModule) (i : Inner)
    (hnext : blockNextRecord buf w.blk s.pos = some (.record r, blk, p))
    (hrec : w.inner.record env s.m r = .go m i) (ht : t = ⟨m, p, s.module, some ⟨blk, i⟩⟩)
  | leave (r : BsRecord) (blk : BsBlock) (p q : Nat) (m : AirModule) (i : Inner)
    (hnext : blockNextRecord buf w.blk s.pos = some (.record r, blk, p))
    (hrec : w.inner.record env s.m r = .leave m i) (ht : t = ⟨i.close m, q, s.module, none⟩)
  | define (hno : ∀ r b p, blockNextRecord buf w.blk s.pos ≠ some (.record r, b, p))
    (blk : BsBlock) (p : Nat)
    (ht : t = ⟨w.inner.define s.m blk.abbrevs, p, s.module, some ⟨blk, w.inner⟩⟩)
  | stay (hno : ∀ r b p, blockNextRecord buf w.blk s.pos ≠ some (.record r, b, p))
    (blk : BsBlock) (p : Nat) (ht : t = ⟨s.m, p, s.module, some ⟨blk, w.inner⟩⟩)
  | close (hno : ∀ r b p, blockNextRecord buf w.blk s.pos ≠ some (.record r, b, p))
    (p : Nat) (ht : t = ⟨w.inner.close s.m, p, s.module, none⟩)

theorem subStep_cases {w : SubWalk} (h : subStep env buf s w = .inl t) :
    SubCase env buf s t w := by
  simp only [subStep] at h
  by_cases hin : w.blk.endPos ≤ s.pos
  · rw [if_pos hin] at h
    have hstop : blockNextRecord buf w.blk s.pos = some (.stop, w.blk, s.pos) := by
      rw [blockNextRecord, if_pos hin]
    exact .close (by simp [hstop]) _ (Sum.inl.inj h).symm
  · rw [if_neg hin] at h
    cases hnext : blockNextRecord buf w.blk s.pos with
    | none =>
      rw [hnext] at h
      exact .close (by simp [hnext]) _ (Sum.inl.inj h).symm
    | some next =>
      obtain ⟨ev, blk, p⟩ := next
      rw [hnext] at h
      cases ev with
      | stop => exact .close (by simp [hnext]) _ (Sum.inl.inj h).symm
      | define => exact .define (by simp [hnext]) blk p (Sum.inl.inj h).symm
      | subblock id =>
        exact .stay (by simp [hnext]) blk _ (Sum.inl.inj h).symm
      | record r =>
        simp only at h
        cases hr : w.inner.record env s.m r with
        | go m i => rw [hr] at h; exact .go r blk p m i hnext hr (Sum.inl.inj h).symm
        | leave m i => rw [hr] at h; exact .leave r blk p _ m i hnext hr (Sum.inl.inj h).symm
        | oom => rw [hr] at h; cases h

/-- What the next item of MODULE is, when that loop is at its head. -/
def moduleNext (buf : List UInt8) (s : Reader) : Option (BsEvent × BsBlock × Nat) :=
  match s.sub, s.module with
  | none, some w => blockNextRecord buf w.blk s.pos
  | _, _ => none

/-- The sub-block that is entered next, to be walked. -/
def enteredAt (buf : List UInt8) (s : Reader) : Option Nat :=
  match moduleNext buf s with
  | some (.subblock id, blk, p) =>
    if id ∈ walkedBlocks ∧
      (blockEnter buf blk.abbrevWidth (if id = 0 then none else some s.m.blockinfo) p).isSome
    then some id else none
  | _ => none

/-- The FUNCTION_BLOCK that comes next is skipped. -/
def bodyAt (buf : List UInt8) (s : Reader) : Bool :=
  match moduleNext buf s with
  | some (.subblock 12, blk, p) => (blockSkip buf blk.abbrevWidth p).isSome
  | _ => false

/-- What an iteration outside of the sub-blocks comes to. -/
inductive ModuleCase (env : ReaderEnv) (buf : List UInt8) (s t : Reader) : Prop
  | quiet (hf : functionRecordAt buf s = []) (he : enteredAt buf s = none)
    (hb : bodyAt buf s = false) (hm : t.m = s.m)
    (hsub : t.sub = none ∨ ∃ blk, t.sub = some ⟨blk, .strtab⟩)
  | record (r : BsRecord) (he : enteredAt buf s = none) (hb : bodyAt buf s = false)
    (hf : functionRecordAt buf s = if r.code = 8 ∧ offOff+3 ≤ r.ops.length then [r.ops] else [])
    (hm : moduleRecord env s.m r = some t.m) (hsub : t.sub = none)
  | enter (id : Nat) (blk : BsBlock) (inner : Inner) (hf : functionRecordAt buf s = [])
    (he : enteredAt buf s = some id) (hb : bodyAt buf s = false)
    (ho : openInner env s.m id = some (t.m, inner)) (hsub : t.sub = some ⟨blk, inner⟩)
  | body (next start stop : Nat) (hf : functionRecordAt buf s = []) (he : enteredAt buf s = none)
    (hb : bodyAt buf s = true) (hm : t.m = (attachBody env s.m next start stop).1)
    (hsub : t.sub = none)

/-- The FUNCTION record among the items of MODULE. -/
def functionOf : Option (BsEvent × BsBlock × Nat) → List (List Nat)
  | some (.record r, _, _) => if r.code = 8 ∧ offOff+3 ≤ r.ops.length then [r.ops] else []
  | _ => []

theorem functionRecordAt_next {w : ModuleWalk} (hsub : s.sub = none) (hw : s.module = some w) :
    functionRecordAt buf s = functionOf (blockNextRecord buf w.blk s.pos) := by
  rw [functionRecordAt, hsub, hw]
  rfl

theorem moduleStep_cases {w : ModuleWalk} (hsub : s.sub = none) (hw : s.module = some w)
    (h : moduleStep env buf s w = .inl t) : ModuleCase env buf s t := by
  have hnext : moduleNext buf s = blockNextRecord buf w.blk s.pos := by
    rw [moduleNext, hsub, hw]
  have hfn : functionRecordAt buf s = functionOf (blockNextRecord buf w.blk s.pos) :=
    functionRecordAt_next hsub hw
  have bail : ∀ (w : ModuleWalk) (p : Nat), bailModule s.m w p = .inl t →
      t.m = s.m ∧ t.sub = none := by
    intro w p hb
    rw [bailModule] at hb
    split_ifs at hb
    cases hb
    exact ⟨rfl, rfl⟩
  simp only [moduleStep] at h
  by_cases hin : w.blk.endPos ≤ s.pos
  · have hstop : blockNextRecord buf w.blk s.pos = some (.stop, w.blk, s.pos) := by
      rw [blockNextRecord, if_pos hin]
    rw [if_pos hin] at h
    rw [hstop] at hnext hfn
    cases h
    exact .quiet hfn (by rw [enteredAt, hnext]) (by rw [bodyAt, hnext]) rfl (.inl rfl)
  rw [if_neg hin] at h
  cases hb : blockNextRecord buf w.blk s.pos with
  | none =>
    rw [hb] at h hnext hfn
    obtain ⟨hm, hs⟩ := bail _ _ h
    exact .quiet hfn (by rw [enteredAt, hnext]) (by rw [bodyAt, hnext]) hm (.inl hs)
  | some next =>
    obtain ⟨ev, blk, p⟩ := next
    rw [hb] at h hnext hfn
    cases ev with
    | stop =>
      cases h
      exact .quiet hfn (by rw [enteredAt, hnext]) (by rw [bodyAt, hnext]) rfl (.inl rfl)
    | define =>
      cases h
      exact .quiet hfn (by rw [enteredAt, hnext]) (by rw [bodyAt, hnext]) rfl (.inl rfl)
    | record r =>
      simp only at h
      cases hr : moduleRecord env s.m r with
      | none => rw [hr] at h; cases h
      | some m =>
        rw [hr] at h
        cases h
        exact .record r (by rw [enteredAt, hnext]) (by rw [bodyAt, hnext]) hfn hr rfl
    | subblock id =>
      simp only at h
      by_cases hwalked : id ∈ walkedBlocks
      · have hid : id ≠ 12 := by
          rintro rfl
          exact absurd hwalked (by decide)
        have hbody : bodyAt buf s = false := by
          rw [bodyAt, hnext]
          split
          · rename_i heq
            cases heq
            exact absurd rfl hid
          · rfl
        rw [if_pos hwalked, enterSub] at h
        simp only at h
        cases hent : blockEnter buf blk.abbrevWidth (if id = 0 then none else some s.m.blockinfo) p with
        | none =>
          rw [hent] at h
          obtain ⟨hm, hs⟩ := bail _ _ h
          refine .quiet hfn ?_ hbody hm (.inl hs)
          simp only [enteredAt, hnext, hent, Option.isSome_none, Bool.false_eq_true, and_false, if_false]
        | some sub =>
          rw [hent] at h
          simp only at h
          cases ho : openInner env s.m id with
          | none => rw [ho] at h; cases h
          | some r =>
            rw [ho] at h
            cases h
            refine .enter id sub.1 r.2 hfn ?_ hbody ho rfl
            simp only [enteredAt, hnext, hent, Option.isSome_some, hwalked, and_self, if_true]
      · have hent : enteredAt buf s = none := by
          simp only [enteredAt, hnext, hwalked, false_and, if_false]
        rw [if_neg hwalked, skipSub] at h
        simp only at h
        cases hskip : blockSkip buf blk.abbrevWidth p with
        | none =>
          rw [hskip] at h
          obtain ⟨hm, hs⟩ := bail _ _ h
          refine .quiet hfn hent ?_ hm (.inl hs)
          rw [bodyAt, hnext]
          split
          · rename_i heq
            cases heq
            rw [hskip]
            rfl
          · rfl
        | some stop =>
          rw [hskip] at h
          by_cases hid : id = 12
          · subst hid
            simp only [if_true] at h
            cases h
            refine .body w.nextBodyFn p stop hfn hent ?_ rfl rfl
            simp only [bodyAt, hnext, hskip, Option.isSome_some]
          · simp only [if_neg hid] at h
            cases h
            refine .quiet hfn hent ?_ rfl (.inl rfl)
            rw [bodyAt, hnext]
            split
            · rename_i heq
              cases heq
              exact absurd rfl hid
            · rfl

/-- An iteration of the reader. -/
theorem readerStep_cases (h : readerStep env buf s = .inl t) :
    (∃ w, s.sub = some w ∧ SubCase env buf s t w) ∨ (s.sub = none ∧ ModuleCase env buf s t) := by
  rw [readerStep] at h
  cases hsub : s.sub with
  | some w =>
    rw [hsub] at h
    exact .inl ⟨w, rfl, subStep_cases h⟩
  | none =>
    rw [hsub] at h
    refine .inr ⟨rfl, ?_⟩
    cases hmod : s.module with
    | some w =>
      rw [hmod] at h
      exact moduleStep_cases hsub hmod h
    | none =>
      rw [hmod] at h
      have hnext : moduleNext buf s = none := by rw [moduleNext, hsub, hmod]
      have hroot : t.m = s.m ∧ (t.sub = none ∨ ∃ blk, t.sub = some ⟨blk, .strtab⟩) := by
        simp only [rootStep] at h
        split_ifs at h
        split at h
        · cases h
        · split_ifs at h
          split at h
          · cases h
          · split_ifs at h
            · cases h; exact ⟨rfl, .inr ⟨_, rfl⟩⟩
            · cases h; exact ⟨rfl, .inl rfl⟩
            · split at h
              · cases h
              · cases h; exact ⟨rfl, .inl rfl⟩
      exact .quiet (by rw [functionRecordAt, hsub, hmod]) (by rw [enteredAt, hnext])
        (by rw [bodyAt, hnext]) hroot.1 hroot.2

/- What the walks keep of the pointers. -/

/-- The cached pointers of a walk, where it stores through them. -/
def Inner.Live (m : AirModule) : Inner → Prop
  | .constants w => w.off ≠ 0 ∧ w.ptr.generation = m.arena.generation
  | .types w => w.off ≠ 0 ∧ w.ptr.generation = m.arena.generation
  | .groups w => w.off ≠ 0
  | _ => True

/-- A table is taken again from its offset; without one there is no pointer. -/
structure Tabled (m : AirModule) : Prop where
  types : m.typesOff = 0 → m.typesPtr = none ∧ m.types = []
  constants : m.constantsOff = 0 → m.constantsPtr = none
  groups : m.groupsOff = 0 → m.groupsPtr = none ∧ m.groups = []
  functions : m.functionsOff = 0 → m.functionsPtr = none
  count : m.functionsOff = 0 ↔ m.numFunctions = 0
  made : m.metadataPtr = none ∧ m.metadataStrings = none

theorem Tabled.of_tables (h : Tabled m) (he : m'.tables = m.tables) : Tabled m' := by
  have ht : Tabled m.tables := ⟨h.types, h.constants, h.groups, h.functions, h.count, h.made⟩
  rw [← he] at ht
  exact ⟨ht.types, ht.constants, ht.groups, ht.functions, ht.count, ht.made⟩

structure Sane (s : Reader) : Prop where
  sound : s.m.arena.Sound
  tabled : Tabled s.m
  walk : ∀ w, s.sub = some w → w.inner.Live s.m

/- The operand arrays that a METADATA walk, or else the module, points at. -/
def Inner.nodes (m : AirModule) : Inner → List Nat
  | .metadata w => nodeGenerations w.records
  | _ => nodeGenerations m.metadata

def Reader.nodes (s : Reader) : List Nat :=
  match s.sub with
  | some w => w.inner.nodes s.m
  | none => nodeGenerations s.m.metadata

def Inner.keepsNode (r : BsRecord) : Inner → Bool
  | .metadata w => decide (w.Keeps r)
  | _ => false

/-- The METADATA record that comes next, if it is kept with operands. -/
def nodeAt (buf : List UInt8) (s : Reader) : List BsRecord :=
  match s.sub with
  | some w =>
    match blockNextRecord buf w.blk s.pos with
    | some (.record r, _, _) => if w.inner.keepsNode r = true then [r] else []
    | _ => []
  | none => []

/- The pointer to the entries that a VALUE_SYMTAB walk holds. -/
def Inner.entriesPtr : Inner → Option Ptr
  | .symtab w => some w.ptr
  | _ => none

def Reader.entriesPtr (s : Reader) : Option Ptr := s.sub.bind fun w => w.inner.entriesPtr

def Inner.storesEntry (r : BsRecord) : Inner → Bool
  | .symtab w => decide (w.Stores r)
  | _ => false

/-- The VALUE_SYMTAB record that comes next, if it makes an entry. -/
def entryAt (buf : List UInt8) (s : Reader) : List BsRecord :=
  match s.sub with
  | some w =>
    match blockNextRecord buf w.blk s.pos with
    | some (.record r, _, _) => if w.inner.storesEntry r = true then [r] else []
    | _ => []
  | none => []

def InSymtab (s : Reader) : Prop := s.entriesPtr ≠ none

def Dangling (s : Reader) : Prop :=
  ∃ p, s.entriesPtr = some p ∧ p.generation ≠ s.m.arena.generation

/-- The iteration takes the pointer to the function table from the base as it is. -/
def DerivesAt (buf : List UInt8) (s : Reader) : Prop :=
  functionRecordAt buf s ≠ [] ∧ s.m.numFunctions = 0 ∨
    bodyAt buf s = true ∧ s.m.numFunctions ≠ 0

instance (buf : List UInt8) (s : Reader) : Decidable (DerivesAt buf s) :=
  inferInstanceAs (Decidable (_ ∨ _))

/-- What an iteration does to `stale`: only an entry of VALUE_SYMTAB can set it. -/
structure StaleStep (env : ReaderEnv) (buf : List UInt8) (s t : Reader) : Prop where
  outside : ¬ InSymtab s → t.m.stale = s.m.stale ∧ ¬ Dangling t
  passes : InSymtab s → entryAt buf s = [] → t.m.stale = s.m.stale ∧
    (Dangling t → Dangling s) ∧ (InSymtab t → Dangling s → Dangling t)
  dangling : ∀ r, entryAt buf s = [r] → Dangling s → t.m.stale = true
  stays : ∀ r, entryAt buf s = [r] → ¬ Dangling s → ¬ NameMoves env s.m.arena r →
    t.m.stale = s.m.stale ∧ ¬ Dangling t
  moves : ∀ r, entryAt buf s = [r] → ¬ Dangling s → NameMoves env s.m.arena r →
    InSymtab t ∧ Dangling t ∧
      (t.m.stale = true ↔ s.m.stale = true ∨ u32 (align8 s.m.arena.used) ≠ 0)

structure PtrStep (env : ReaderEnv) (buf : List UInt8) (s t : Reader) : Prop where
  sane : Sane t
  after : s.m.arena.After t.m.arena
  functions : t.m.functionsPtr =
    if DerivesAt buf s then some (t.m.arena.ptr t.m.functionsOff) else s.m.functionsPtr
  nodes : t.nodes = (if enteredAt buf s = some 15 then [] else s.nodes) ++
    (nodeAt buf s).map fun _ => t.m.arena.generation
  stale : StaleStep env buf s t

theorem quiet_functions (h : m'.tables = m.tables) : m'.functionsPtr = m.functionsPtr := by
  have hfield := congrArg AirModule.functionsPtr h
  exact hfield

theorem quiet_blockinfo (h : m'.tables = m.tables) : m'.blockinfo = m.blockinfo := by
  have hfield := congrArg AirModule.blockinfo h
  exact hfield

theorem quiet_metadata (h : m'.tables = m.tables) : m'.metadata = m.metadata := by
  have hfield := congrArg AirModule.metadata h
  exact hfield

/-- A record of a walk that is not VALUE_SYMTAB. -/
theorem innerRecord_quiet (env : ReaderEnv) (h : m.arena.Sound) {inner : Inner}
    (hl : inner.Live m) (hsym : inner.entriesPtr = none) (r : BsRecord) :
    (inner.record env m r).All fun m' i => ArenaOnly m m' ∧ i.Live m' ∧ i.entriesPtr = none ∧
      i.nodes m' = inner.nodes m ++ if inner.keepsNode r = true then [m'.arena.generation] else [] := by
  have hother : ∀ {m' : AirModule} {i : Inner}, ArenaOnly m m' → i.nodes m' = nodeGenerations m'.metadata →
      inner.nodes m = nodeGenerations m.metadata → inner.keepsNode r = false →
      i.nodes m' = inner.nodes m ++ if inner.keepsNode r = true then [m'.arena.generation] else [] := by
    intro m' i hq hi hn hk
    rw [hk, hi, hn, quiet_metadata hq.tables]
    exact (List.append_nil _).symm
  cases inner with
  | strtab =>
    exact (strtabRecord_quiet env h r).map _ fun m' _ hq => ⟨hq, trivial, rfl, hother hq rfl rfl rfl⟩
  | blockinfo target => exact ⟨.refl h, trivial, rfl, hother (.refl h) rfl rfl rfl⟩
  | constants w =>
    refine (constantsRecord_quiet env h hl.2 r).map _ fun m' w' hq => ?_
    exact ⟨hq.1, ⟨by rw [hq.2.1]; exact hl.1, hq.2.2⟩, rfl, hother hq.1 rfl rfl rfl⟩
  | passOver => exact ⟨.refl h, trivial, rfl, hother (.refl h) rfl rfl rfl⟩
  | metadata w =>
    refine (metadataRecord_quiet env h w r).map _ fun m' w' hq => ⟨hq.1, trivial, rfl, ?_⟩
    simp only [Inner.keepsNode, Inner.nodes, decide_eq_true_eq]
    by_cases hk : w.Keeps r
    · rw [if_pos hk, hq.2.1 hk]
    · rw [if_neg hk, hq.2.2 hk, List.append_nil]
  | groups w =>
    refine (groupsRecord_quiet env h w r).map _ fun m' w' hq => ?_
    exact ⟨hq.1, by rw [Inner.Live, hq.2]; exact hl, rfl, hother hq.1 rfl rfl rfl⟩
  | types w =>
    refine (typesRecord_quiet env h hl.2 r).map _ fun m' w' hq => ?_
    exact ⟨hq.1, ⟨by rw [hq.2.1]; exact hl.1, hq.2.2⟩, rfl, hother hq.1 rfl rfl rfl⟩
  | symtab w => cases hsym

/-- The tables of a walk go to the module. -/
theorem innerClose_facts (h : Tabled m) {inner : Inner} (hl : inner.Live m) :
    (inner.close m).arena = m.arena ∧ (inner.close m).stale = m.stale ∧
    (inner.close m).functionsPtr = m.functionsPtr ∧ Tabled (inner.close m) ∧
    nodeGenerations (inner.close m).metadata = inner.nodes m := by
  cases inner with
  | constants w =>
    exact ⟨rfl, rfl, rfl, ⟨h.1, fun h0 => absurd h0 hl.1, h.3, h.4, h.5, h.6⟩, rfl⟩
  | groups w =>
    exact ⟨rfl, rfl, rfl, ⟨h.1, h.2, fun h0 => absurd h0 hl, h.4, h.5, h.6⟩, rfl⟩
  | types w =>
    exact ⟨rfl, rfl, rfl, ⟨fun h0 => absurd h0 hl.1, h.2, h.3, h.4, h.5, h.6⟩, rfl⟩
  | metadata w => exact ⟨rfl, rfl, rfl, ⟨h.1, h.2, h.3, h.4, h.5, h.6⟩, rfl⟩
  | symtab w => exact ⟨rfl, rfl, rfl, ⟨h.1, h.2, h.3, h.4, h.5, h.6⟩, rfl⟩
  | strtab => exact ⟨rfl, rfl, rfl, h, rfl⟩
  | blockinfo target => exact ⟨rfl, rfl, rfl, h, rfl⟩
  | passOver => exact ⟨rfl, rfl, rfl, h, rfl⟩

theorem innerDefine_facts (m : AirModule) (abbrevs : List Abbrev) (inner : Inner) :
    { inner.define m abbrevs with blockinfo := m.blockinfo } = m := by
  cases inner with
  | blockinfo target =>
    simp only [Inner.define]
    split
    · rfl
    · rfl
  | _ => rfl

theorem Inner.Live.of_generation {inner : Inner} (h : inner.Live m)
    (hg : m'.arena.generation = m.arena.generation) : inner.Live m' := by
  cases inner with
  | constants w => exact ⟨h.1, by rw [hg]; exact h.2⟩
  | types w => exact ⟨h.1, by rw [hg]; exact h.2⟩
  | groups w => exact h
  | _ => trivial

theorem sub_events (buf : List UInt8) {w : SubWalk} (h : s.sub = some w) : functionRecordAt buf s = [] ∧
    bodyAt buf s = false ∧ enteredAt buf s = none := by
  have hnext : moduleNext buf s = none := by rw [moduleNext, h]
  exact ⟨by rw [functionRecordAt, h], by rw [bodyAt, hnext], by rw [enteredAt, hnext]⟩

theorem sub_not_derives (buf : List UInt8) {w : SubWalk} (h : s.sub = some w) : ¬ DerivesAt buf s := by
  rintro (⟨hf, -⟩ | ⟨hb, -⟩)
  · exact hf (sub_events buf h).1
  · rw [(sub_events buf h).2.1] at hb
    cases hb

theorem nodeAt_record {w : SubWalk} {r : BsRecord} {blk : BsBlock} {p : Nat}
    (h : s.sub = some w) (hnext : blockNextRecord buf w.blk s.pos = some (.record r, blk, p)) :
    nodeAt buf s = if w.inner.keepsNode r = true then [r] else [] := by
  simp only [nodeAt, h, hnext]

theorem nodeAt_other {w : SubWalk} (h : s.sub = some w)
    (hno : ∀ r b p, blockNextRecord buf w.blk s.pos ≠ some (.record r, b, p)) :
    nodeAt buf s = [] := by
  simp only [nodeAt, h]

theorem entryAt_record {w : SubWalk} {r : BsRecord} {blk : BsBlock} {p : Nat}
    (h : s.sub = some w) (hnext : blockNextRecord buf w.blk s.pos = some (.record r, blk, p)) :
    entryAt buf s = if w.inner.storesEntry r = true then [r] else [] := by
  simp only [entryAt, h, hnext]

theorem entryAt_other {w : SubWalk} (h : s.sub = some w)
    (hno : ∀ r b p, blockNextRecord buf w.blk s.pos ≠ some (.record r, b, p)) :
    entryAt buf s = [] := by
  simp only [entryAt, h]

theorem entryAt_inSymtab {r : BsRecord} (h : entryAt buf s = [r]) : InSymtab s := by
  cases hsub : s.sub with
  | none => rw [entryAt, hsub] at h; cases h
  | some w =>
    rw [entryAt, hsub] at h
    rw [InSymtab, Reader.entriesPtr, hsub]
    simp only at h
    split at h
    · split_ifs at h with hst
      cases hi : w.inner with
      | symtab w' => simp only [Option.bind, hi, Inner.entriesPtr, ne_eq, reduceCtorEq, not_false_eq_true]
      | _ => rw [hi] at hst; cases hst
    · cases h

theorem Dangling.inSymtab (h : Dangling s) : InSymtab s := by
  obtain ⟨p, hp, -⟩ := h
  rw [InSymtab, hp]
  exact Option.some_ne_none p

theorem StaleStep.of_outside (hno : ¬ InSymtab s) (hst : t.m.stale = s.m.stale)
    (ht : ¬ Dangling t) : StaleStep env buf s t where
  outside _ := ⟨hst, ht⟩
  passes hs := absurd hs hno
  dangling _ hr := absurd (entryAt_inSymtab hr) hno
  stays _ hr := absurd (entryAt_inSymtab hr) hno
  moves _ hr := absurd (entryAt_inSymtab hr) hno

theorem StaleStep.of_passes (hs : InSymtab s) (hnone : entryAt buf s = [])
    (hst : t.m.stale = s.m.stale) (hd : Dangling t → Dangling s)
    (hd' : InSymtab t → Dangling s → Dangling t) : StaleStep env buf s t where
  outside hno := absurd hs hno
  passes _ _ := ⟨hst, hd, hd'⟩
  dangling r hr := by rw [hnone] at hr; cases hr
  stays r hr := by rw [hnone] at hr; cases hr
  moves r hr := by rw [hnone] at hr; cases hr

theorem not_inSymtab_none (h : t.sub = none) : ¬ InSymtab t := by
  rw [InSymtab, Reader.entriesPtr, h]
  exact fun hne => hne rfl

theorem not_inSymtab_some {w : SubWalk} (h : t.sub = some w) (hw : w.inner.entriesPtr = none) :
    ¬ InSymtab t := by
  rw [InSymtab, Reader.entriesPtr, h]
  exact fun hne => hne hw

/-- An iteration in a sub-block other than VALUE_SYMTAB. -/
theorem subCase_ptr {w : SubWalk} (hs : Sane s) (hsub : s.sub = some w)
    (hsym : w.inner.entriesPtr = none) (h : SubCase env buf s t w) : PtrStep env buf s t := by
  have hnd := sub_not_derives buf hsub
  have hent := (sub_events buf hsub).2.2
  have hlive := hs.walk w hsub
  have hno := not_inSymtab_some hsub hsym
  have hnodes : s.nodes = w.inner.nodes s.m := by rw [Reader.nodes, hsub]
  have hadd : ∀ (r : BsRecord) (g : Nat), (if w.inner.keepsNode r = true then [r] else []).map
      (fun _ => g) = if w.inner.keepsNode r = true then [g] else [] := by
    intro r g
    split_ifs <;> rfl
  have hclose : ∀ {m : AirModule} {i : Inner} {q : Nat}, ArenaOnly s.m m → i.Live m →
      i.nodes m = s.nodes ++ (nodeAt buf s).map (fun _ => m.arena.generation) →
      t = ⟨i.close m, q, s.module, none⟩ → PtrStep env buf s t := by
    intro m i q hq hi hn ht
    obtain ⟨ha, hst, hf, htab, hmd⟩ := innerClose_facts (hs.tabled.of_tables hq.tables) hi
    subst ht
    constructor
    · exact ⟨by rw [ha]; exact hq.sound, htab, fun w hw => by cases hw⟩
    · rw [ha]; exact hq.after
    · rw [if_neg hnd, hf, quiet_functions hq.tables]
    · rw [hent, if_neg (by simp), ha, ← hn]
      exact hmd
    · exact .of_outside hno (hst.trans hq.stale) fun hd => not_inSymtab_none rfl hd.inSymtab
  have hstay : ∀ {m : AirModule} {i : Inner} {q : Nat} {blk : BsBlock},
      ArenaOnly s.m { m with blockinfo := s.m.blockinfo } → i.Live m → i.entriesPtr = none →
      i.nodes m = s.nodes ++ (nodeAt buf s).map (fun _ => m.arena.generation) →
      t = ⟨m, q, s.module, some ⟨blk, i⟩⟩ → PtrStep env buf s t := by
    intro m i q blk hq hi hp hn ht
    subst ht
    have htab := hs.tabled.of_tables hq.tables
    have hfn := quiet_functions hq.tables
    constructor
    · refine ⟨hq.sound, ?_, fun w hw => by cases hw; exact hi⟩
      exact ⟨htab.types, htab.constants, htab.groups, htab.functions, htab.count, htab.made⟩
    · exact hq.after
    · rw [if_neg hnd]
      exact hfn
    · rw [hent, if_neg (by simp), ← hn]
      rfl
    · exact .of_outside hno hq.stale fun hd => not_inSymtab_some rfl hp hd.inSymtab
  have hrec : ∀ (r : BsRecord) {blk : BsBlock} {p : Nat},
      blockNextRecord buf w.blk s.pos = some (.record r, blk, p) → ∀ (m : AirModule) (i : Inner),
      i.nodes m = w.inner.nodes s.m ++
        (if w.inner.keepsNode r = true then [m.arena.generation] else []) →
      i.nodes m = s.nodes ++ (nodeAt buf s).map (fun _ => m.arena.generation) := by
    intro r blk p hnext m i hn
    rw [nodeAt_record hsub hnext, hadd, hnodes, hn]
  cases h with
  | go r blk p m i hnext hgo ht =>
    have hall := innerRecord_quiet env hs.sound hlive hsym r
    rw [hgo] at hall
    have hq : ArenaOnly s.m { m with blockinfo := s.m.blockinfo } := by
      rw [← quiet_blockinfo hall.1.tables]
      exact hall.1
    exact hstay hq hall.2.1 hall.2.2.1 (hrec r hnext m i hall.2.2.2) ht
  | leave r blk p q m i hnext hleave ht =>
    have hall := innerRecord_quiet env hs.sound hlive hsym r
    rw [hleave] at hall
    exact hclose hall.1 hall.2.1 (hrec r hnext m i hall.2.2.2) ht
  | define hother blk p ht =>
    have hsame := innerDefine_facts s.m blk.abbrevs w.inner
    have hq : ArenaOnly s.m { w.inner.define s.m blk.abbrevs with blockinfo := s.m.blockinfo } := by
      rw [hsame]
      exact .refl hs.sound
    have ha := congrArg AirModule.arena hsame
    refine hstay hq (hlive.of_generation (congrArg Arena.generation ha)) hsym ?_ ht
    rw [nodeAt_other hsub hother, hnodes]
    have hmd := congrArg AirModule.metadata hsame
    cases hi : w.inner with
    | metadata w' => exact (List.append_nil _).symm
    | _ =>
      rw [hi] at hmd
      exact (congrArg nodeGenerations hmd).trans (List.append_nil _).symm
  | stay hother blk p ht =>
    refine hstay (.refl hs.sound) hlive hsym ?_ ht
    rw [nodeAt_other hsub hother, hnodes]
    exact (List.append_nil _).symm
  | close hother p ht =>
    refine hclose (.refl hs.sound) hlive ?_ ht
    rw [nodeAt_other hsub hother, hnodes]
    exact (List.append_nil _).symm

theorem symtab_of_entriesPtr {inner : Inner} {p : Ptr} (h : inner.entriesPtr = some p) :
    ∃ w, inner = .symtab w ∧ w.ptr = p := by
  cases inner with
  | symtab w => exact ⟨w, rfl, Option.some.inj h⟩
  | _ => cases h

theorem dangling_iff {w : SubWalk} {p : Ptr} (h : s.sub = some w)
    (hp : w.inner.entriesPtr = some p) : Dangling s ↔ p.generation ≠ s.m.arena.generation := by
  have hptr : s.entriesPtr = some p := by rw [Reader.entriesPtr, h]; exact hp
  constructor
  · rintro ⟨q, hq, hne⟩
    rw [hptr] at hq
    cases hq
    exact hne
  · intro hne
    exact ⟨p, hptr, hne⟩

/-- An iteration in VALUE_SYMTAB. -/
theorem symtabCase_ptr {w : SubWalk} {p : Ptr} (hs : Sane s) (hsub : s.sub = some w)
    (hsym : w.inner.entriesPtr = some p) (h : SubCase env buf s t w) : PtrStep env buf s t := by
  have hnd := sub_not_derives buf hsub
  have hent := (sub_events buf hsub).2.2
  have hdang := dangling_iff hsub hsym
  have hin : InSymtab s := by
    rw [InSymtab, Reader.entriesPtr, hsub]
    simp only [Option.bind, hsym, ne_eq, reduceCtorEq, not_false_eq_true]
  obtain ⟨w', hw', rfl⟩ := symtab_of_entriesPtr hsym
  have hnode : nodeAt buf s = [] := by
    simp only [nodeAt, hsub, hw']
    split
    · rfl
    · rfl
  have hnodes : s.nodes = nodeGenerations s.m.metadata := by
    rw [Reader.nodes, hsub]
    simp only [hw', Inner.nodes]
  -- all but `stale`: the tables of the module stay, and the walk keeps its pointer
  have hbase : ∀ {m : AirModule} {w₁ : SymtabWalk} {q : Nat} {blk : BsBlock},
      s.m.arena.After m.arena → m.tables = s.m.tables →
      t = ⟨m, q, s.module, some ⟨blk, .symtab w₁⟩⟩ → StaleStep env buf s t →
      PtrStep env buf s t := by
    intro m w₁ q blk ha htab ht hstale
    subst ht
    refine ⟨⟨ha.sound, hs.tabled.of_tables htab, fun w hw => by cases hw; trivial⟩, ha, ?_, ?_, hstale⟩
    · rw [if_neg hnd, quiet_functions htab]
    · have hmd := congrArg AirModule.metadata htab
      rw [hent, if_neg (by simp), hnode, hnodes]
      exact (congrArg nodeGenerations hmd).trans (List.append_nil _).symm
  have hleave : ∀ {w₁ : SymtabWalk} {q : Nat}, entryAt buf s = [] →
      t = ⟨Inner.close s.m (.symtab w₁), q, s.module, none⟩ → PtrStep env buf s t := by
    intro w₁ q hentry ht
    subst ht
    refine ⟨⟨hs.sound, ?_, fun w hw => by cases hw⟩, .refl hs.sound, ?_, ?_, ?_⟩
    · exact (innerClose_facts hs.tabled (show (Inner.symtab w₁).Live s.m from trivial)).2.2.2.1
    · rw [if_neg hnd]
      rfl
    · rw [hent, if_neg (by simp), hnode, hnodes]
      exact (List.append_nil _).symm
    · exact .of_passes hin hentry rfl (fun hd => absurd hd.inSymtab (not_inSymtab_none rfl))
        fun ht => absurd ht (not_inSymtab_none rfl)
  have hstay : ∀ {q : Nat} {blk : BsBlock}, entryAt buf s = [] →
      t = ⟨s.m, q, s.module, some ⟨blk, .symtab w'⟩⟩ → PtrStep env buf s t := by
    intro q blk hentry ht
    have hdt : Dangling t ↔ w'.ptr.generation ≠ s.m.arena.generation := by
      rw [ht]
      exact dangling_iff rfl rfl
    refine hbase (.refl hs.sound) rfl ht (.of_passes hin hentry (by rw [ht]) ?_ ?_)
    · rw [hdt, hdang]
      exact id
    · rw [hdt, hdang]
      exact fun _ => id
  have hrecord : ∀ (r : BsRecord) {blk : BsBlock} {q : Nat},
      blockNextRecord buf w.blk s.pos = some (.record r, blk, q) →
      entryAt buf s = if w'.Stores r then [r] else [] := by
    intro r blk q hnext
    rw [entryAt_record hsub hnext, hw']
    simp only [Inner.storesEntry, decide_eq_true_eq]
  cases h with
  | define hother blk q ht =>
    rw [hw'] at ht
    exact hstay (entryAt_other hsub hother) ht
  | stay hother blk q ht =>
    rw [hw'] at ht
    exact hstay (entryAt_other hsub hother) ht
  | close hother q ht =>
    rw [hw'] at ht
    exact hleave (entryAt_other hsub hother) ht
  | leave r blk q q' m i hnext hrec ht =>
    rw [hw', Inner.record] at hrec
    by_cases hstores : w'.Stores r
    · obtain ⟨m₁, w₁, hgo, -⟩ := symtabRecord_stores env hs.sound hstores
      rw [hgo] at hrec
      cases hrec
    · rcases symtabRecord_skips env (m := s.m) hstores with hgo | hgo
      · rw [hgo] at hrec
        cases hrec
      · rw [hgo] at hrec
        cases hrec
        exact hleave (by rw [hrecord r hnext, if_neg hstores]) ht
  | go r blk q m i hnext hrec ht =>
    rw [hw', Inner.record] at hrec
    by_cases hstores : w'.Stores r
    · obtain ⟨m₁, w₁, hgo, hptr, hdangling, hkeep, hmove⟩ :=
        symtabRecord_stores env hs.sound hstores
      have hafter := symtabRecord_after env hs.sound w' r
      rw [hgo] at hrec hafter
      cases hrec
      have hentry : entryAt buf s = [r] := by rw [hrecord r hnext, if_pos hstores]
      have hdt : Dangling t ↔ w₁.ptr.generation ≠ m.arena.generation := by
        rw [ht]
        exact dangling_iff rfl rfl
      have hone : ∀ r', entryAt buf s = [r'] → r' = r := by
        intro r' hr'
        rw [hentry] at hr'
        cases hr'
        rfl
      have hlive : ¬ Dangling s → w'.ptr.generation = s.m.arena.generation := by
        rw [hdang]
        exact not_not.1
      refine hbase hafter.1 hafter.2.1 ht ⟨fun hno => absurd hin hno, ?_, ?_, ?_, ?_⟩
      · intro _ hnone
        rw [hentry] at hnone
        cases hnone
      · intro _ _ hd
        rw [ht]
        exact hdangling (hdang.1 hd)
      · intro r' hr' hd hno
        rw [hone r' hr'] at hno
        obtain ⟨hst, hgen⟩ := hkeep (hlive hd) hno
        rw [hdt, not_not, ht]
        exact ⟨hst, hgen⟩
      · intro r' hr' hd hmv
        rw [hone r' hr'] at hmv
        obtain ⟨hgen, hst⟩ := hmove (hlive hd) hmv
        refine ⟨?_, hdt.2 hgen, by rw [ht]; exact hst⟩
        exact (hdt.2 hgen).inSymtab
    · rcases symtabRecord_skips env (m := s.m) hstores with hgo | hgo
      · rw [hgo] at hrec
        cases hrec
        exact hstay (by rw [hrecord r hnext, if_neg hstores]) ht
      · rw [hgo] at hrec
        cases hrec

/-- What a record of MODULE does to the pointers: the first function sets one. -/
structure RecordStep (m m' : AirModule) (first : Prop) : Prop where
  after : m.arena.After m'.arena
  stale : m'.stale = m.stale
  metadata : m'.metadata = m.metadata
  tabled : Tabled m'
  later : ¬ first → m'.functionsPtr = m.functionsPtr
  first : first → m'.functionsPtr = some (m'.arena.ptr m'.functionsOff)

theorem ArenaOnly.recordStep (h : ArenaOnly m m') (ht : Tabled m) {first : Prop} (hf : ¬ first) :
    RecordStep m m' first where
  after := h.after
  stale := h.stale
  metadata := quiet_metadata h.tables
  tabled := ht.of_tables h.tables
  later _ := quiet_functions h.tables
  first hfirst := absurd hfirst hf

theorem functionRecord_step (h : m.arena.Sound) (ht : Tabled m) {ops : List Nat}
    (hf : functionRecord env m ops = some m') :
    RecordStep m m' (offOff+3 ≤ ops.length ∧ m.numFunctions = 0) := by
  rw [functionRecord] at hf
  by_cases hshort : ops.length < offOff+3
  · rw [if_pos hshort] at hf
    cases hf
    exact (ArenaOnly.refl h).recordStep ht fun hfirst => absurd hfirst.1 (Nat.not_le.2 hshort)
  · rw [if_neg hshort] at hf
    have hq := intern_quiet env h sizeofAirFunction (.function (recordFunction ops))
    have hti := ht.of_tables hq.tables
    have hnum : (m.intern env sizeofAirFunction (.function (recordFunction ops))).2.numFunctions =
        m.numFunctions := by
      have hfield := congrArg AirModule.numFunctions hq.tables
      exact hfield
    have hmd := quiet_metadata hq.tables
    have hptr := quiet_functions hq.tables
    have hcount := hti.count
    simp only at hf
    split_ifs at hf with h0 hn
    · cases hf
      refine ⟨hq.after, hq.stale, hmd, ?_, fun hno => absurd ⟨by omega, by omega⟩ hno, fun _ => rfl⟩
      exact ⟨hti.1, hti.2, hti.3, fun hz => absurd hz h0,
        ⟨fun hz => absurd hz h0, fun hz => by cases hz⟩, hti.6⟩
    · cases hf
      refine ⟨hq.after, hq.stale, hmd, ?_, fun _ => hptr, fun hfirst => absurd hfirst.2 (by omega)⟩
      exact ⟨hti.1, hti.2, hti.3, hti.4, ⟨fun hz => absurd (hcount.1 hz) hn, fun hz => by cases hz⟩,
        hti.6⟩

theorem moduleRecord_step (h : m.arena.Sound) (ht : Tabled m) {r : BsRecord}
    (hr : moduleRecord env m r = some m') :
    RecordStep m m' (r.code = 8 ∧ offOff+3 ≤ r.ops.length ∧ m.numFunctions = 0) := by
  have hstring : ∀ {first : Prop} (f : Nat → AirModule → AirModule), ¬ first →
      (∀ n m₁, (f n m₁).tables = m₁.tables ∧ (f n m₁).arena = m₁.arena ∧
        (f n m₁).stale = m₁.stale) →
      (if (arenaInternString env m r.ops).1 = 0 then none
        else some (f (arenaInternString env m r.ops).1 (arenaInternString env m r.ops).2)) = some m' →
      RecordStep m m' first := by
    intro first f hno hf hm
    split_ifs at hm
    cases hm
    have hq := internString_quiet env h r.ops
    obtain ⟨htab, har, hst⟩ := hf (arenaInternString env m r.ops).1 (arenaInternString env m r.ops).2
    exact ArenaOnly.recordStep ⟨by rw [har]; exact hq.after, htab.trans hq.tables, hst.trans hq.stale⟩
      ht hno
  rw [moduleRecord] at hr
  split at hr
  · rename_i hcode
    exact hstring (fun n m₁ => { m₁ with tripleOffset := n }) (by simp [hcode])
      (fun _ _ => ⟨rfl, rfl, rfl⟩) hr
  · rename_i hcode
    exact hstring (fun n m₁ => { m₁ with datalayoutOffset := n }) (by simp [hcode])
      (fun _ _ => ⟨rfl, rfl, rfl⟩) hr
  · rename_i hcode
    exact hstring (fun n m₁ => { m₁ with sourceFilenameOffset := n }) (by simp [hcode])
      (fun _ _ => ⟨rfl, rfl, rfl⟩) hr
  · rename_i hcode
    have hstep := functionRecord_step h ht hr
    refine ⟨hstep.1, hstep.2, hstep.3, hstep.4, ?_, fun hf => hstep.6 hf.2⟩
    exact fun hno => hstep.5 fun hf => hno ⟨hcode, hf⟩
  · rename_i hcode
    cases hr
    have hq : ArenaOnly m { m with numGlobalvars := m.numGlobalvars+1 } := ⟨.refl h, rfl, rfl⟩
    exact hq.recordStep ht fun hf => by rw [hcode] at hf; exact absurd hf.1 (by decide)
  · rename_i h2 h3 h16 h8 h7
    cases hr
    exact (ArenaOnly.refl h).recordStep ht fun hf => h8 hf.1

/-- After the derivation each table that is there points at the arena as it is. -/
theorem derive_tabled (h : Tabled m) : Tabled (deriveTablePtrs m) where
  types h0 := by
    obtain ⟨hp, ht⟩ := h.types h0
    simp only [deriveTablePtrs, if_pos (show m.typesOff = 0 from h0)]
    exact ⟨hp, ht⟩
  constants h0 := by
    simp only [deriveTablePtrs, if_pos (show m.constantsOff = 0 from h0)]
    exact h.constants h0
  groups h0 := by
    obtain ⟨hp, ht⟩ := h.groups h0
    simp only [deriveTablePtrs, if_pos (show m.groupsOff = 0 from h0)]
    exact ⟨hp, ht⟩
  functions h0 := by
    simp only [deriveTablePtrs, if_pos (show m.functionsOff = 0 from h0)]
    exact h.functions h0
  count := h.count
  made := h.made

theorem derive_functions (m : AirModule) (h : m.functionsOff ≠ 0) :
    (deriveTablePtrs m).functionsPtr = some (m.arena.ptr m.functionsOff) := by
  simp only [deriveTablePtrs, if_neg h]

/-- A store to the function table, when its pointer is good. -/
theorem storeFunction_quiet (h : m.arena.Sound)
    (hp : ∀ p, m.functionsPtr = some p → p.generation = m.arena.generation) (i : Nat)
    (f : AirFunction → AirFunction) : ArenaOnly m (m.storeFunction i f) := by
  rw [AirModule.storeFunction]
  split
  · exact .refl h
  · rename_i p hptr
    have hlive := store_live (hp p hptr)
    split
    · rw [if_pos (hp p hptr), hlive]
      exact put_quiet h _ _
    · rw [hlive]
      exact .refl h

theorem derive_live_functions (h : Tabled m) (p : Ptr)
    (hp : (deriveTablePtrs m).functionsPtr = some p) :
    p.generation = (deriveTablePtrs m).arena.generation := by
  by_cases h0 : m.functionsOff = 0
  · rw [(derive_tabled h).functions h0] at hp
    cases hp
  · rw [derive_functions m h0] at hp
    cases hp
    rfl

theorem attachBody_step (h : m.arena.Sound) (ht : Tabled m) (next start stop : Nat) :
    RecordStep m (attachBody env m next start stop).1 (m.numFunctions ≠ 0) := by
  have hd : RecordStep m (deriveTablePtrs m) (m.numFunctions ≠ 0) := by
    refine ⟨.refl h, rfl, rfl, derive_tabled ht, ?_, ?_⟩
    · intro hno
      have h0 := ht.count.2 (not_not.1 hno)
      rw [ht.functions h0]
      exact (derive_tabled ht).functions h0
    · intro hn
      exact derive_functions m fun h0 => hn (ht.count.1 h0)
  simp only [attachBody]
  split_ifs
  · have hq := storeFunction_quiet (m := deriveTablePtrs m) h (derive_live_functions ht)
      (skipProtos env (deriveTablePtrs m) (deriveTablePtrs m).numFunctions next)
      fun f => { f with bodyOffset := start, bodyLength := stop-start }
    have hsame := storeFunction_same (deriveTablePtrs m)
      (skipProtos env (deriveTablePtrs m) (deriveTablePtrs m).numFunctions next)
      fun f => { f with bodyOffset := start, bodyLength := stop-start }
    refine ⟨hq.after, hq.stale, (quiet_metadata hq.tables).trans hd.metadata, hd.tabled.of_tables hq.tables,
      fun hno => ?_, fun hn => ?_⟩
    · rw [hsame.ptr]
      exact hd.later hno
    · rw [hsame.ptr, hd.first hn, Arena.ptr, Arena.ptr, hsame.generation, hsame.off]
  · exact hd

/-- Entering a sub-block to walk it. -/
theorem openInner_facts {id : Nat} {inner : Inner} (h : m.arena.Sound)
    (ho : openInner env m id = some (m', inner)) : ArenaOnly m m' ∧ inner.Live m' ∧
    (∀ p, inner.entriesPtr = some p → p.generation = m'.arena.generation) ∧
    inner.nodes m' = if id = 15 then [] else nodeGenerations m.metadata := by
  have hnone : ∀ {P : Ptr → Prop} (p : Ptr), (none : Option Ptr) = some p → P p :=
    fun p hp => by cases hp
  simp only [openInner] at ho
  split at ho
  · cases ho
    exact ⟨.refl h, trivial, hnone, rfl⟩
  · split_ifs at ho with h0
    cases ho
    exact ⟨reserve_quiet env h _, ⟨h0, rfl⟩, hnone, rfl⟩
  · split_ifs at ho
    cases ho
    have hq := reserve_quiet env h (4*maxMdStrings)
    exact ⟨hq.trans (reserve_quiet env hq.sound _), trivial, hnone, rfl⟩
  · split_ifs at ho with h0
    cases ho
    exact ⟨reserve_quiet env h _, h0, hnone, rfl⟩
  · split_ifs at ho with h0
    cases ho
    exact ⟨reserve_quiet env h _, ⟨h0, rfl⟩, hnone, rfl⟩
  · split_ifs at ho
    cases ho
    exact ⟨reserve_quiet env h _, trivial, fun p hp => by cases hp; rfl, rfl⟩
  · rename_i hmd _ _ _
    cases ho
    exact ⟨.refl h, trivial, hnone, by rw [if_neg hmd]; rfl⟩

/-- An iteration outside of the sub-blocks. -/
theorem moduleCase_ptr (hs : Sane s) (hsub : s.sub = none) (h : ModuleCase env buf s t) :
    PtrStep env buf s t := by
  have hno := not_inSymtab_none hsub
  have hnodes : s.nodes = nodeGenerations s.m.metadata := by rw [Reader.nodes, hsub]
  have hnode : nodeAt buf s = [] := by rw [nodeAt, hsub]
  have hrecord : ∀ {first : Prop}, enteredAt buf s = none → RecordStep s.m t.m first →
      (DerivesAt buf s ↔ first) → t.sub = none → PtrStep env buf s t := by
    intro first hent hstep hiff ht
    constructor
    · exact ⟨hstep.after.sound, hstep.tabled, fun w hw => by rw [ht] at hw; cases hw⟩
    · exact hstep.after
    · split_ifs with hd
      · exact hstep.first (hiff.1 hd)
      · exact hstep.later fun hf => hd (hiff.2 hf)
    · rw [hent, if_neg (by simp), hnode, hnodes, Reader.nodes, ht, hstep.metadata]
      exact (List.append_nil _).symm
    · exact .of_outside hno hstep.stale fun hd => not_inSymtab_none ht hd.inSymtab
  cases h with
  | quiet hf he hb hm ht =>
    have hnd : ¬ DerivesAt buf s := by
      rintro (⟨hfn, -⟩ | ⟨hbody, -⟩)
      · exact hfn hf
      · rw [hb] at hbody
        cases hbody
    constructor
    · refine ⟨by rw [hm]; exact hs.sound, by rw [hm]; exact hs.tabled, fun w hw => ?_⟩
      rcases ht with ht | ⟨blk, ht⟩
      · rw [ht] at hw
        cases hw
      · rw [ht] at hw
        cases hw
        trivial
    · rw [hm]
      exact .refl hs.sound
    · rw [if_neg hnd, hm]
    · rw [he, if_neg (by simp), hnode, hnodes, Reader.nodes]
      rcases ht with ht | ⟨blk, ht⟩
      · rw [ht, hm]
        exact (List.append_nil _).symm
      · rw [ht, hm]
        exact (List.append_nil _).symm
    · refine .of_outside hno (by rw [hm]) fun hd => ?_
      rcases ht with ht | ⟨blk, ht⟩
      · exact not_inSymtab_none ht hd.inSymtab
      · exact not_inSymtab_some ht rfl hd.inSymtab
  | record r he hb hf hm ht =>
    refine hrecord he (moduleRecord_step hs.sound hs.tabled hm) ?_ ht
    rw [DerivesAt, hf, hb]
    constructor
    · rintro (⟨hne, hn⟩ | ⟨hbody, -⟩)
      · split_ifs at hne with hc
        · exact ⟨hc.1, hc.2, hn⟩
        · exact absurd rfl hne
      · cases hbody
    · rintro ⟨hc, hlen, hn⟩
      exact .inl ⟨by rw [if_pos ⟨hc, hlen⟩]; exact List.cons_ne_nil _ _, hn⟩
  | body next start stop hf he hb hm ht =>
    refine hrecord he (by rw [hm]; exact attachBody_step hs.sound hs.tabled next start stop) ?_ ht
    rw [DerivesAt, hf, hb]
    simp only [ne_eq, not_true_eq_false, false_and, true_and, false_or]
  | enter id blk inner hf he hb ho ht =>
    have hnd : ¬ DerivesAt buf s := by
      rintro (⟨hfn, -⟩ | ⟨hbody, -⟩)
      · exact hfn hf
      · rw [hb] at hbody
        cases hbody
    obtain ⟨hq, hl, hp, hn⟩ := openInner_facts hs.sound ho
    constructor
    · exact ⟨hq.sound, hs.tabled.of_tables hq.tables, fun w hw => by rw [ht] at hw; cases hw; exact hl⟩
    · exact hq.after
    · rw [if_neg hnd, quiet_functions hq.tables]
    · rw [he, hnode, hnodes, Reader.nodes, ht]
      simp only [Option.some.injEq, List.map_nil, List.append_nil]
      exact hn
    · refine .of_outside hno hq.stale ?_
      rintro ⟨p, hptr, hne⟩
      rw [Reader.entriesPtr, ht] at hptr
      exact hne (hp p hptr)

theorem readerStep_ptr (hs : Sane s) (h : readerStep env buf s = .inl t) :
    PtrStep env buf s t := by
  rcases readerStep_cases h with ⟨w, hsub, hcase⟩ | ⟨hsub, hcase⟩
  · cases hp : w.inner.entriesPtr with
    | none => exact subCase_ptr hs hsub hp hcase
    | some p => exact symtabCase_ptr hs hsub hp hcase
  · exact moduleCase_ptr hs hsub hcase

theorem reaches_ptr {u : Reader} (hs : Sane s) (h : Reaches (readerStep env buf) s u) :
    Sane u ∧ s.m.arena.After u.m.arena :=
  h.inv (I := fun u => Sane u ∧ s.m.arena.After u.m.arena)
    (fun _ _ hu hst => ⟨(readerStep_ptr hu.1 hst).sane, hu.2.trans (readerStep_ptr hu.1 hst).after⟩)
    ⟨hs, .refl hs.sound⟩

end Lagfx
