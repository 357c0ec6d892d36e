import Lagfx.BitcodeBody
import Lagfx.BitcodeEffects

/-! When the arena moves, and which pointers the walks keep alive while it does: a table that
is taken again after each reservation is never stale. -/
namespace Lagfx
open ByteMemory Bits

variable {env : ReaderEnv} {buf : List UInt8} {m m' m'' : AirModule} {a b c : Arena}

def Arena.Sound (a : Arena) : Prop := 0 < a.capacity ∧ a.used ≤ a.capacity

/-- `b` is `a` some reservations later. It has not moved if and only if all that was
reserved fits in what `a` had. -/
structure Arena.After (a b : Arena) : Prop where
  sound : b.Sound
  used : a.used ≤ b.used
  generation : a.generation ≤ b.generation
  moved : b.generation = a.generation ↔ b.used ≤ a.capacity
  capacity : b.generation = a.generation → b.capacity = a.capacity

theorem Arena.After.refl (h : a.Sound) : a.After a :=
  ⟨h, Nat.le_refl _, Nat.le_refl _, ⟨fun _ => h.2, fun _ => rfl⟩, fun _ => rfl⟩

theorem Arena.After.trans (h : a.After b) (h' : b.After c) : a.After c where
  sound := h'.sound
  used := Nat.le_trans h.used h'.used
  generation := Nat.le_trans h.generation h'.generation
  moved := by
    have hab := h.generation
    have hbc := h'.generation
    constructor
    · intro heq
      have hb : b.generation = a.generation := by omega
      rw [← h.capacity hb]
      exact h'.moved.1 (by omega)
    · intro hfit
      have hb := h.moved.2 (Nat.le_trans h'.used hfit)
      rw [← hb]
      exact h'.moved.2 (by rwa [h.capacity hb])
  capacity := by
    intro heq
    have hab := h.generation
    have hbc := h'.generation
    have hb : b.generation = a.generation := by omega
    rw [h'.capacity (by omega), h.capacity hb]

/-- The same arena but for what is in it and how often memory was asked for. -/
theorem Arena.After.of_eq (h : a.Sound) (hg : b.generation = a.generation)
    (hc : b.capacity = a.capacity) (hu : b.used = a.used) : a.After b where
  sound := by rw [Arena.Sound, hc, hu]; exact h
  used := by rw [hu]
  generation := by rw [hg]
  moved := by rw [hg, hu]; exact ⟨fun _ => h.2, fun _ => rfl⟩
  capacity := fun _ => hc

theorem le_newCapacity {need : Nat} (fuel cap : Nat) (h : need ≤ cap*2^fuel) :
    need ≤ newCapacity need fuel cap := by
  induction fuel generalizing cap with
  | zero => rwa [Nat.pow_zero, Nat.mul_one] at h
  | succ fuel ih =>
    rw [newCapacity]
    split_ifs with hlt
    · apply ih
      rwa [Nat.pow_succ, Nat.mul_comm _ 2, ← Nat.mul_assoc, Nat.mul_comm cap 2] at h
    · omega

theorem cap_le_newCapacity (need fuel cap : Nat) : cap ≤ newCapacity need fuel cap := by
  induction fuel generalizing cap with
  | zero => exact Nat.le_refl _
  | succ fuel ih =>
    rw [newCapacity]
    split_ifs with hlt
    · exact Nat.le_trans (by omega) (ih (2*cap))
    · exact Nat.le_refl _

/-- A reservation that is granted moves the arena when it does not fit. -/
def Arena.Moves (env : ReaderEnv) (a : Arena) (n : Nat) : Prop :=
  a.capacity < align8 a.used+n ∧ env.grants a.calls = true

instance (env : ReaderEnv) (a : Arena) (n : Nat) : Decidable (a.Moves env n) :=
  inferInstanceAs (Decidable (_ ∧ _))

theorem arenaReserve_after (env : ReaderEnv) (h : a.Sound) (n : Nat) :
    a.After (arenaReserve env a n).2 := by
  have hal := align8_le a.used
  simp only [arenaReserve]
  split_ifs with hfull hgrant
  · have hneed : align8 a.used+n ≤ newCapacity (align8 a.used+n) (align8 a.used+n) (2*a.capacity) := by
      apply le_newCapacity
      have h2 := Nat.lt_two_pow_self (n := align8 a.used+n)
      have hpos := h.1
      calc align8 a.used+n ≤ 1*2^(align8 a.used+n) := by omega
        _ ≤ 2*a.capacity*2^(align8 a.used+n) := Nat.mul_le_mul_right _ (by omega)
    have hcap := cap_le_newCapacity (align8 a.used+n) (align8 a.used+n) (2*a.capacity)
    have hpos := h.1
    refine ⟨⟨?_, hneed⟩, ?_, ?_, ⟨?_, ?_⟩, ?_⟩
    · exact Nat.lt_of_lt_of_le (by omega) hcap
    · exact Nat.le_trans hal (Nat.le_add_right _ _)
    · exact Nat.le_succ _
    · intro heq
      exact absurd heq (Nat.succ_ne_self _)
    · intro hfit
      exact absurd hfit (Nat.not_le.2 hfull)
    · intro heq
      exact absurd heq (Nat.succ_ne_self _)
  · exact .of_eq h rfl rfl rfl
  · have hfit : align8 a.used+n ≤ a.capacity := Nat.not_lt.1 hfull
    exact ⟨⟨h.1, hfit⟩, Nat.le_trans hal (Nat.le_add_right _ _), Nat.le_refl _,
      ⟨fun _ => hfit, fun _ => rfl⟩, fun _ => rfl⟩

theorem arenaReserve_generation (env : ReaderEnv) (a : Arena) (n : Nat) :
    (arenaReserve env a n).2.generation =
      if a.Moves env n then a.generation+1 else a.generation := by
  by_cases hm : a.Moves env n
  · simp only [arenaReserve, if_pos hm.1, if_pos hm.2, if_pos hm]
  · simp only [arenaReserve, if_neg hm]
    split_ifs with hfull hgrant
    · exact absurd ⟨hfull, hgrant⟩ hm
    · rfl
    · rfl

theorem arenaReserve_moved_off {n : Nat} (h : a.Moves env n) :
    (arenaReserve env a n).1 = u32 (align8 a.used) := by
  simp only [arenaReserve, if_pos h.1, if_pos h.2]

theorem arenaReserve_stays {n : Nat} (h : ¬ a.Moves env n) :
    (arenaReserve env a n).2.generation = a.generation := by
  rw [arenaReserve_generation, if_neg h]

/-- What the records of a sub-block leave alone: the tables with their pointers. -/
def AirModule.tables (m : AirModule) : AirModule :=
  { m with
    arena := Arena.init 0 0, bitstreamOffset := 0, strtabOffset := 0, strtabLen := 0
    tripleOffset := 0, datalayoutOffset := 0, sourceFilenameOffset := 0, numGlobalvars := 0
    symtabPtr := none, numSymtab := 0, stale := false }

/-- Only the arena changed, and no store went through a stale pointer. -/
structure ArenaOnly (m m' : AirModule) : Prop where
  after : m.arena.After m'.arena
  tables : m'.tables = m.tables
  stale : m'.stale = m.stale

theorem ArenaOnly.refl (h : m.arena.Sound) : ArenaOnly m m := ⟨.refl h, rfl, rfl⟩

theorem ArenaOnly.trans (h : ArenaOnly m m') (h' : ArenaOnly m' m'') : ArenaOnly m m'' :=
  ⟨h.after.trans h'.after, h'.tables.trans h.tables, h'.stale.trans h.stale⟩

theorem ArenaOnly.sound (h : ArenaOnly m m') : m'.arena.Sound := h.after.sound

theorem reserve_quiet (env : ReaderEnv) (h : m.arena.Sound) (n : Nat) :
    ArenaOnly m (m.reserve env n).2 :=
  ⟨arenaReserve_after env h n, rfl, rfl⟩

theorem put_quiet (h : m.arena.Sound) (off : Nat) (c : Cell) : ArenaOnly m (m.put off c) :=
  ⟨.of_eq h rfl rfl rfl, rfl, rfl⟩

theorem called_quiet (h : m.arena.Sound) : ArenaOnly m m.called :=
  ⟨.of_eq h rfl rfl rfl, rfl, rfl⟩

theorem intern_quiet (env : ReaderEnv) (h : m.arena.Sound) (n : Nat) (c : Cell) :
    ArenaOnly m (m.intern env n c).2 := by
  have hr := reserve_quiet env h n
  simp only [AirModule.intern]
  split_ifs
  · exact hr
  · exact hr.trans (put_quiet hr.sound _ _)

theorem internString_quiet (env : ReaderEnv) (h : m.arena.Sound) (ops : List Nat) :
    ArenaOnly m (arenaInternString env m ops).2 :=
  intern_quiet env h _ _

theorem internU32_quiet (env : ReaderEnv) (h : m.arena.Sound) (ops : List Nat) :
    ArenaOnly m (arenaInternU32Array env m ops).2 :=
  intern_quiet env h _ _

theorem store_live {p : Ptr} (h : p.generation = m.arena.generation) : m.store p = m := by
  simp only [AirModule.store, h, ne_eq, not_true_eq_false, decide_false, Bool.or_false]

theorem store_ptr (m : AirModule) (off : Nat) : m.store (m.arena.ptr off) = m := store_live rfl

/- The records of each sub-block. -/

def Handled.All {α : Type} (P : AirModule → α → Prop) : Handled α → Prop
  | .go m w | .leave m w => P m w
  | .oom => True

theorem Handled.All.map {α β : Type} {P : AirModule → α → Prop} {Q : AirModule → β → Prop}
    {h : Handled α} (hp : h.All P) (f : α → β) (hpq : ∀ m w, P m w → Q m (f w)) :
    (h.map f).All Q := by
  cases h with
  | go m w => exact hpq m w hp
  | leave m w => exact hpq m w hp
  | oom => trivial

theorem all_oom_or {α : Type} {P : AirModule → α → Prop} {n : Nat} {h : Handled α}
    (hp : h.All P) : (if n = 0 then Handled.oom else h).All P := by
  split_ifs
  · trivial
  · exact hp

theorem constantsRecord_quiet (env : ReaderEnv) (h : m.arena.Sound) {w : ConstantsWalk}
    (hw : w.ptr.generation = m.arena.generation) (r : BsRecord) :
    (constantsRecord env m w r).All fun m' w' =>
      ArenaOnly m m' ∧ w'.off = w.off ∧ w'.ptr.generation = m'.arena.generation := by
  have hstay : ∀ (m' : AirModule) kind p, m' = m → ArenaOnly m m' ∧ (w.push kind p).off = w.off ∧
      (w.push kind p).ptr.generation = m'.arena.generation :=
    fun m' _ _ he => by rw [he]; exact ⟨.refl h, rfl, hw⟩
  have hbytes : ∀ (m' : AirModule) kind off len, ArenaOnly m m' →
      (w.pushBytes kind off len m').All fun m' w' =>
        ArenaOnly m m' ∧ w'.off = w.off ∧ w'.ptr.generation = m'.arena.generation := by
    intro m' kind off len hq
    simp only [ConstantsWalk.pushBytes, store_ptr]
    exact ⟨hq, rfl, rfl⟩
  rw [constantsRecord]
  by_cases hfull : maxConsts ≤ w.entries.length
  · rw [if_pos hfull]
    exact ⟨.refl h, rfl, hw⟩
  by_cases hset : r.code = 1
  · rw [if_neg hfull, if_pos hset]
    split <;> exact ⟨.refl h, rfl, hw⟩
  · rw [if_neg hfull, if_neg hset]
    simp only [store_live hw]
    split
    · exact hstay m _ _ rfl
    · exact hstay m _ _ rfl
    · exact hstay m _ _ rfl
    · exact hstay m _ _ rfl
    · exact all_oom_or (hbytes _ _ _ _ (internString_quiet env h _))
    · exact all_oom_or (hbytes _ _ _ _ (internString_quiet env h _))
    · exact hbytes _ _ _ _ (internU32_quiet env h _)
    · exact hbytes _ _ _ _ (internU32_quiet env h _)
    · exact hstay m _ _ rfl

theorem mdStrings_quiet (h : m.arena.Sound) {st : List UInt8} {n bit : Nat}
    {strings strings' : List Nat} {sd : List UInt8}
    (hmd : mdStrings env st n m strings sd bit = some (m', strings')) : ArenaOnly m m' := by
  induction n generalizing m strings sd bit with
  | zero => cases hmd; exact .refl h
  | succ n ih =>
    rw [mdStrings] at hmd
    split_ifs at hmd with hfull
    · cases hmd; exact .refl h
    · cases hsize : mdStringSize st (2*st.length+1) 0 0 bit with
      | none => rw [hsize] at hmd; cases hmd; exact .refl h
      | some size =>
        simp only [hsize] at hmd
        split_ifs at hmd with hover hoom
        · cases hmd; exact .refl h
        · have hq := intern_quiet env h (size.1+1) (.bytes (sd.take size.1 ++ [0]))
          exact hq.trans (ih hq.sound hmd)

/-- A METADATA record that is kept with its operands. -/
def MetadataWalk.Keeps (w : MetadataWalk) (r : BsRecord) : Prop :=
  r.code ∉ [35, 1, 4, 38, 39] ∧ w.records.length < maxMdRecords ∧ r.ops ≠ []

instance (w : MetadataWalk) (r : BsRecord) : Decidable (w.Keeps r) :=
  inferInstanceAs (Decidable (_ ∧ _ ∧ _))

/-- The generations of the operand arrays of these records. -/
def nodeGenerations (rs : List AirMetadata) : List Nat :=
  rs.filterMap fun r => r.operands.map Ptr.generation

/-- What a METADATA record does: one that is kept with its operands points at the arena as it
is then. -/
def KeepsNode (m : AirModule) (w : MetadataWalk) (keeps : Prop) (m' : AirModule)
    (w' : MetadataWalk) : Prop :=
  ArenaOnly m m' ∧ (keeps → nodeGenerations w'.records =
    nodeGenerations w.records ++ [m'.arena.generation]) ∧
  (¬ keeps → nodeGenerations w'.records = nodeGenerations w.records)

theorem metadataNode_quiet (env : ReaderEnv) (h : m.arena.Sound) (w : MetadataWalk)
    (kind : AirMdKind) (name pending : Nat) (r : BsRecord) :
    (metadataNode env m w kind name pending r).All
      (KeepsNode m w (w.records.length < maxMdRecords ∧ r.ops ≠ [])) := by
  rw [metadataNode]
  split_ifs with hfull hnil
  · exact ⟨.refl h, fun hk => absurd hk.1 (by omega), fun _ => rfl⟩
  · refine ⟨.refl h, fun hk => absurd hnil hk.2, fun _ => ?_⟩
    rw [nodeGenerations, List.filterMap_append]
    exact List.append_nil _
  · refine all_oom_or ⟨internU32_quiet env h _, fun _ => ?_, fun hk => absurd ⟨?_, hnil⟩ hk⟩
    · rw [nodeGenerations, List.filterMap_append]
      rfl
    · omega

theorem metadataStringsRecord_quiet (env : ReaderEnv) (h : m.arena.Sound) (w : MetadataWalk)
    (r : BsRecord) : (metadataStringsRecord env m w r).All
      fun m' w' => ArenaOnly m m' ∧ w'.records = w.records := by
  rw [metadataStringsRecord]
  split
  · split_ifs
    · exact ⟨.refl h, rfl⟩
    · trivial
    · split
      · trivial
      · rename_i hmd
        have hc := called_quiet h
        exact ⟨hc.trans (mdStrings_quiet hc.sound hmd), rfl⟩
  · exact ⟨.refl h, rfl⟩

theorem metadataRecord_quiet (env : ReaderEnv) (h : m.arena.Sound) (w : MetadataWalk)
    (r : BsRecord) : (metadataRecord env m w r).All (KeepsNode m w (w.Keeps r)) := by
  have hother : r.code ∈ [35, 1, 4, 38, 39] → ∀ hd : Handled MetadataWalk,
      hd.All (fun m' w' => ArenaOnly m m' ∧ w'.records = w.records) →
      hd.All (KeepsNode m w (w.Keeps r)) := by
    intro hcode hd hall
    have hno : ¬ w.Keeps r := fun hk => hk.1 hcode
    cases hd with
    | go m' w' => exact ⟨hall.1, fun hk => absurd hk hno, fun _ => by rw [hall.2]⟩
    | leave m' w' => exact ⟨hall.1, fun hk => absurd hk hno, fun _ => by rw [hall.2]⟩
    | oom => trivial
  have hnode : r.code ∉ [35, 1, 4, 38, 39] → ∀ kind name pending,
      (metadataNode env m w kind name pending r).All (KeepsNode m w (w.Keeps r)) := by
    intro hcode kind name pending
    have hkeeps : w.Keeps r = (w.records.length < maxMdRecords ∧ r.ops ≠ []) :=
      propext ⟨fun hk => hk.2, fun hk => ⟨hcode, hk⟩⟩
    rw [hkeeps]
    exact metadataNode_quiet env h w kind name pending r
  rw [metadataRecord]
  split
  · rename_i hcode
    exact hother (by simp [hcode]) _ (metadataStringsRecord_quiet env h w r)
  · rename_i hcode
    refine hother (by simp [hcode]) _ ?_
    split_ifs
    · exact ⟨.refl h, rfl⟩
    · exact all_oom_or ⟨internString_quiet env h _, rfl⟩
  · rename_i hcode
    exact hother (by simp [hcode]) _ (all_oom_or ⟨internString_quiet env h _, rfl⟩)
  · rename_i hcode
    exact hnode (by simp [hcode]) _ _ _
  · rename_i hcode
    exact hnode (by simp [hcode]) _ _ _
  · rename_i hcode
    exact hnode (by simp [hcode]) _ _ _
  · rename_i hcode
    exact hnode (by simp [hcode]) _ _ _
  · rename_i hcode
    exact hnode (by simp [hcode]) _ _ _
  · rename_i hcode
    exact hother (by simp [hcode]) _ ⟨.refl h, rfl⟩
  · rename_i hcode
    exact hother (by simp [hcode]) _ ⟨.refl h, rfl⟩
  · exact hnode (by simp_all) _ _ _

theorem groupsRecord_quiet (env : ReaderEnv) (h : m.arena.Sound) (w : GroupsWalk)
    (r : BsRecord) : (groupsRecord env m w r).All fun m' w' => ArenaOnly m m' ∧ w'.off = w.off := by
  rw [groupsRecord]
  split_ifs
  · exact ⟨.refl h, rfl⟩
  · simp only [store_ptr]
    exact ⟨internU32_quiet env h _, rfl⟩

theorem typesRecord_quiet (env : ReaderEnv) (h : m.arena.Sound) {w : TypesWalk}
    (hw : w.ptr.generation = m.arena.generation) (r : BsRecord) :
    (typesRecord env m w r).All fun m' w' =>
      ArenaOnly m m' ∧ w'.off = w.off ∧ w'.ptr.generation = m'.arena.generation := by
  rw [typesRecord]
  simp only [store_live hw, store_ptr]
  split_ifs
  · exact ⟨.refl h, rfl, hw⟩
  · exact ⟨.refl h, rfl, hw⟩
  · trivial
  · exact ⟨internString_quiet env h _, rfl, rfl⟩
  · trivial
  · exact ⟨internU32_quiet env h _, rfl, rfl⟩
  · exact ⟨internU32_quiet env h _, rfl, rfl⟩
  · exact ⟨.refl h, rfl, hw⟩

theorem strtabRecord_quiet (env : ReaderEnv) (h : m.arena.Sound) (r : BsRecord) :
    (strtabRecord env m r).All fun m' _ => ArenaOnly m m' := by
  rw [strtabRecord]
  split
  · rename_i b bs _
    have hq := intern_quiet env h (bs.length+1) (.bytes (b::bs))
    exact all_oom_or ⟨hq.after, hq.tables, hq.stale⟩
  · exact ArenaOnly.refl h

/- VALUE_SYMTAB, whose entries are reached through the pointer from before the loop. -/

/-- The operands that spell the name of an entry. -/
def symtabNameOf (r : BsRecord) : Option (List Nat) :=
  match r.code, r.ops with
  | 1, _::name => some name
  | 3, _::_::name => some name
  | _, _ => none

def SymtabWalk.Stores (w : SymtabWalk) (r : BsRecord) : Prop := r.code ≠ 2 ∧ w.num < maxSymtab

instance (w : SymtabWalk) (r : BsRecord) : Decidable (w.Stores r) :=
  inferInstanceAs (Decidable (_ ∧ _))

/-- The reservation for the name of an entry moves the arena. -/
def NameMoves (env : ReaderEnv) (a : Arena) (r : BsRecord) : Prop :=
  ∃ name, symtabNameOf r = some name ∧ a.Moves env (name.length+1)

theorem symtabRecord_eq (env : ReaderEnv) (m : AirModule) (w : SymtabWalk) (r : BsRecord) :
    symtabRecord env m w r =
      if r.code = 2 then .go m w
      else if maxSymtab ≤ w.num then .leave m w
      else .go ((symtabNameOf r).elim (m.store w.ptr) (symtabName env (m.store w.ptr) w))
        { w with num := w.num+1 } := by
  obtain ⟨code, ops, blob⟩ := r
  simp only [symtabRecord, symtabNameOf]
  split_ifs
  · rfl
  · rfl
  · congr 1
    split
    · rfl
    · rfl
    · rename_i hentry hfnentry
      first
      | rfl
      | split
        · exact absurd rfl (hentry _ _ rfl)
        · exact absurd rfl (hfnentry _ _ _ rfl)
        · rfl

theorem symtabRecord_skips (env : ReaderEnv) {w : SymtabWalk} {r : BsRecord}
    (h : ¬ w.Stores r) :
    symtabRecord env m w r = .go m w ∨ symtabRecord env m w r = .leave m w := by
  rw [symtabRecord_eq]
  split_ifs with hcode hnum
  · exact .inl rfl
  · exact .inr rfl
  · exact absurd ⟨hcode, Nat.not_le.1 hnum⟩ h

theorem store_after (h : m.arena.Sound) (p : Ptr) : m.arena.After (m.store p).arena :=
  .of_eq h rfl rfl rfl

theorem symtabName_after (env : ReaderEnv) (h : m.arena.Sound) (w : SymtabWalk)
    (name : List Nat) : m.arena.After (symtabName env m w name).arena ∧
      (symtabName env m w name).tables = m.tables := by
  have hq := internString_quiet env h name
  simp only [symtabName]
  split_ifs
  · exact ⟨hq.after, hq.tables⟩
  · exact ⟨hq.after.trans (store_after hq.sound _), hq.tables⟩

theorem symtabRecord_after (env : ReaderEnv) (h : m.arena.Sound) (w : SymtabWalk)
    (r : BsRecord) : (symtabRecord env m w r).All fun m' w' =>
      m.arena.After m'.arena ∧ m'.tables = m.tables ∧ w'.ptr = w.ptr := by
  rw [symtabRecord_eq]
  split_ifs
  · exact ⟨.refl h, rfl, rfl⟩
  · exact ⟨.refl h, rfl, rfl⟩
  · have hs := store_after h w.ptr
    cases symtabNameOf r with
    | none => exact ⟨hs, rfl, rfl⟩
    | some name =>
      have hn := symtabName_after env (m := m.store w.ptr) hs.sound w name
      exact ⟨hs.trans hn.1, hn.2, rfl⟩

theorem store_stale (m : AirModule) (p : Ptr) : (m.store p).stale = true ↔
    m.stale = true ∨ p.generation ≠ m.arena.generation := by
  simp only [AirModule.store, Bool.or_eq_true, decide_eq_true_eq]

theorem intern_arena (env : ReaderEnv) (m : AirModule) (n : Nat) (c : Cell) :
    (m.intern env n c).2.arena.generation = (arenaReserve env m.arena n).2.generation := by
  rw [intern_eq]
  split_ifs <;> rfl

/-- An entry through a pointer that is still good: its own name can move the arena. -/
theorem symtabName_live (env : ReaderEnv) (h : m.arena.Sound) {w : SymtabWalk} {name : List Nat}
    (hw : w.ptr.generation = m.arena.generation) :
    (¬ m.arena.Moves env (name.length+1) →
      (symtabName env m w name).arena.generation = m.arena.generation ∧
        (symtabName env m w name).stale = m.stale) ∧
    (m.arena.Moves env (name.length+1) →
      (symtabName env m w name).arena.generation ≠ m.arena.generation ∧
        ((symtabName env m w name).stale = true ↔
          m.stale = true ∨ u32 (align8 m.arena.used) ≠ 0)) := by
  have hq := internString_quiet env h name
  have hgen : (arenaInternString env m name).2.arena.generation =
      (arenaReserve env m.arena (name.length+1)).2.generation := intern_arena env m _ _
  have hoff : (arenaInternString env m name).1 = (arenaReserve env m.arena (name.length+1)).1 := rfl
  simp only [symtabName]
  constructor
  · intro hstay
    rw [arenaReserve_stays hstay] at hgen
    split_ifs
    · exact ⟨hgen, hq.stale⟩
    · rw [store_live (by rw [hgen]; exact hw)]
      exact ⟨hgen, hq.stale⟩
  · intro hmove
    rw [arenaReserve_generation, if_pos hmove] at hgen
    rw [arenaReserve_moved_off hmove] at hoff
    have hne : (arenaInternString env m name).2.arena.generation ≠ m.arena.generation := by
      rw [hgen]
      exact Nat.succ_ne_self _
    split_ifs with h0
    · rw [hoff] at h0
      refine ⟨hne, ?_⟩
      rw [hq.stale]
      simp only [h0, ne_eq, not_true_eq_false, or_false]
    · rw [hoff] at h0
      refine ⟨hne, ?_⟩
      rw [store_stale, hq.stale]
      simp only [h0, ne_eq, not_false_eq_true, or_true, iff_true]
      exact .inr (by rw [hw]; exact fun heq => hne heq.symm)

/-- What an entry does to `stale`. -/
theorem symtabRecord_stores (env : ReaderEnv) (h : m.arena.Sound) {w : SymtabWalk} {r : BsRecord}
    (hr : w.Stores r) : ∃ m' w', symtabRecord env m w r = .go m' w' ∧ w'.ptr = w.ptr ∧
      (w.ptr.generation ≠ m.arena.generation → m'.stale = true) ∧
      (w.ptr.generation = m.arena.generation → ¬ NameMoves env m.arena r →
        m'.stale = m.stale ∧ w'.ptr.generation = m'.arena.generation) ∧
      (w.ptr.generation = m.arena.generation → NameMoves env m.arena r →
        w'.ptr.generation ≠ m'.arena.generation ∧
        (m'.stale = true ↔ m.stale = true ∨ u32 (align8 m.arena.used) ≠ 0)) := by
  rw [symtabRecord_eq, if_neg hr.1, if_neg (Nat.not_le.2 hr.2)]
  refine ⟨_, _, rfl, rfl, ?_, ?_, ?_⟩
  · intro hne
    have hs : (m.store w.ptr).stale = true := (store_stale m w.ptr).2 (.inr hne)
    cases symtabNameOf r with
    | none => exact hs
    | some name =>
      have hsound := (store_after h w.ptr).sound
      have hq := internString_quiet env hsound name
      simp only [Option.elim, symtabName]
      split_ifs
      · rw [hq.stale, hs]
      · rw [store_stale, hq.stale, hs]
        exact .inl rfl
  · intro hw hstay
    rw [store_live hw]
    cases hn : symtabNameOf r with
    | none => exact ⟨rfl, hw⟩
    | some name =>
      obtain ⟨hgen, hst⟩ := (symtabName_live env h hw).1 fun hm => hstay ⟨name, hn, hm⟩
      exact ⟨hst, by rw [Option.elim, hgen]; exact hw⟩
  · rintro hw ⟨name, hn, hmove⟩
    obtain ⟨hgen, hst⟩ := (symtabName_live env h hw).2 hmove
    rw [store_live hw, hn]
    exact ⟨by rw [Option.elim, hw]; exact fun heq => hgen heq.symm, hst⟩

end Lagfx
