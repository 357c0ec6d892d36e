import Lagfx.BitcodeEffects

/-! The function table: where the FUNCTION records put their structs, and when reading them
back as an array gives the sequence of the records with their names. -/
namespace Lagfx
open ByteMemory Bits Machine

variable {env : ReaderEnv} {buf : List UInt8} {m m' : AirModule} {s t : Reader}
variable {R : AirFunction → List Nat → Prop} {offs : List Nat} {recs : List (List Nat)}

/-- Function structs of `recs` lie at `offs`, in this order and without overlap, and nowhere
else; `R` is what a struct has of its record. -/
structure FnTable (R : AirFunction → List Nat → Prop) (m : AirModule) (offs : List Nat)
    (recs : List (List Nat)) : Prop where
  num : m.numFunctions = offs.length
  head : m.functionsOff = offs.headD 0
  gaps : offs.Pairwise fun a b => a+sizeofAirFunction ≤ b
  inside : ∀ o ∈ offs, 0 < o ∧ o+sizeofAirFunction ≤ m.arena.used
  only : ∀ o, Cell.IsFunction (m.arena.cells o) → o ∈ offs
  len : offs.length = recs.length
  carries : ∀ (i o : Nat) (ops : List Nat), offs[i]? = some o → recs[i]? = some ops →
    ∃ f, m.arena.cells o = some (.function f) ∧ R f ops

theorem FnTable.kept (h : FnTable R m offs recs) (hk : ModuleKept m m')
    (hu : m'.arena.used ≤ 2^32) : FnTable R m' offs recs where
  num := by rw [hk.num, h.num]
  head := by rw [hk.off, h.head]
  gaps := h.gaps
  inside o ho := ⟨(h.inside o ho).1, Nat.le_trans (h.inside o ho).2 hk.used⟩
  only o ho := h.only o (hk.above hu o ho)
  len := h.len
  carries i o ops ho hops := by
    have hlt := (h.inside o (List.mem_of_getElem? ho)).2
    rw [hk.below hu o (by rw [sizeofAirFunction] at hlt; omega)]
    exact h.carries i o ops ho hops

/-- A struct of the table is changed in a way that keeps what it has of its record. -/
theorem FnTable.storeFunction (h : FnTable R m offs recs) (i : Nat)
    {g : AirFunction → AirFunction} (hg : ∀ f ops, R f ops → R (g f) ops) :
    FnTable R (m.storeFunction i g) offs recs := by
  obtain ⟨hused, hnum, hoff, -⟩ := storeFunction_same m i g
  rcases storeFunction_cases m i g with hcells | ⟨fn, hfn, hcells⟩
  · exact ⟨hnum.trans h.num, hoff.trans h.head, h.gaps, fun o ho => by rw [hused]; exact h.inside o ho,
      fun o ho => h.only o (by rwa [hcells] at ho), h.len, fun j o ops => by
        rw [hcells]
        exact h.carries j o ops⟩
  · refine ⟨hnum.trans h.num, hoff.trans h.head, h.gaps,
      fun o ho => by rw [hused]; exact h.inside o ho, ?_, h.len, ?_⟩
    · intro o ho
      by_cases heq : o = m.functionSlot i
      · exact h.only o ⟨fn, by rw [heq, hfn]⟩
      · rw [hcells, Function.update_of_ne heq] at ho
        exact h.only o ho
    · intro j o ops ho hops
      obtain ⟨f, hf, hr⟩ := h.carries j o ops ho hops
      by_cases heq : o = m.functionSlot i
      · rw [heq, hfn] at hf
        cases hf
        exact ⟨g fn, by rw [hcells, heq, Function.update_self], hg fn ops hr⟩
      · exact ⟨f, by rw [hcells, Function.update_of_ne heq, hf], hr⟩

/-- A FUNCTION record puts its struct at the end of the arena. -/
theorem FnTable.add (h : FnTable R m offs recs) {ops : List Nat}
    (hlen : offOff+3 ≤ ops.length) (hm : functionRecord env m ops = some m')
    (hu : m'.arena.used ≤ 2^32) (hr : R (recordFunction ops) ops) :
    FnTable R m' (offs ++ [align8 m.arena.used]) (recs ++ [ops]) := by
  obtain ⟨h0, hend, hcells, hnum, hoff⟩ := functionRecord_cells hlen hm hu
  have hal := align8_le m.arena.used
  have hlt : ∀ o ∈ offs, o+sizeofAirFunction ≤ align8 m.arena.used :=
    fun o ho => Nat.le_trans (h.inside o ho).2 hal
  have hne : ∀ o ∈ offs, o ≠ align8 m.arena.used := by
    intro o ho heq
    have := hlt o ho
    rw [heq, sizeofAirFunction] at this
    omega
  constructor
  · rw [hnum, h.num, List.length_append]
    rfl
  · rw [hoff, h.num]
    cases offs with
    | nil => rfl
    | cons o os => exact h.head
  · rw [List.pairwise_append]
    refine ⟨h.gaps, List.pairwise_singleton _ _, ?_⟩
    intro a ha b hb
    rw [List.mem_singleton.1 hb]
    exact hlt a ha
  · intro o ho
    rcases List.mem_append.1 ho with ho | ho
    · exact ⟨(h.inside o ho).1, by rw [hend]; exact Nat.le_trans (hlt o ho) (Nat.le_add_right ..)⟩
    · rw [List.mem_singleton.1 ho, hend]
      exact ⟨by omega, Nat.le_refl _⟩
  · intro o ho
    by_cases heq : o = align8 m.arena.used
    · rw [heq]
      exact List.mem_append_right _ (List.mem_singleton_self _)
    · rw [hcells, Function.update_of_ne heq] at ho
      exact List.mem_append_left _ (h.only o ho)
  · rw [List.length_append, List.length_append, h.len]
    rfl
  · intro i o ops' ho hops
    rcases Nat.lt_trichotomy i offs.length with hi | hi | hi
    · rw [List.getElem?_append_left hi] at ho
      rw [List.getElem?_append_left (by rw [← h.len]; exact hi)] at hops
      obtain ⟨f, hf, hr⟩ := h.carries i o ops' ho hops
      exact ⟨f, by rw [hcells, Function.update_of_ne (hne o (List.mem_of_getElem? ho)), hf], hr⟩
    · rw [hi, List.getElem?_concat_length] at ho
      rw [hi, h.len, List.getElem?_concat_length] at hops
      cases ho
      cases hops
      exact ⟨_, by rw [hcells, Function.update_self], hr⟩
    · rw [List.getElem?_eq_none (by rw [List.length_append]; exact hi)] at ho
      cases ho

/- What a function struct has of its record. -/
structure AirFunction.Declares (f : AirFunction) (ops : List Nat) : Prop where
  typeIndex : f.typeIndex = u32 (ops.getD 2 0)
  isProto : f.isProto = decide (ops.getD 4 0 ≠ 0)
  linkage : f.linkage = u32 (ops.getD 5 0)
  paramAttrIndex : f.paramAttrIndex = u32 (ops.getD 6 0)
  visibility : f.visibility = u32 (ops.getD 9 0)
  nameLength : f.nameLength = u32 (ops.getD 1 0)

/-- During the walks the name is still an offset into STRTAB. -/
def Recorded (f : AirFunction) (ops : List Nat) : Prop :=
  f.Declares ops ∧ f.nameOffset = u32 (ops.getD 0 0)

theorem recorded_self (ops : List Nat) : Recorded (recordFunction ops) ops :=
  ⟨⟨rfl, rfl, rfl, rfl, rfl, rfl⟩, rfl⟩

theorem FnTable.imp {R' : AirFunction → List Nat → Prop} (h : FnTable R m offs recs)
    (himp : ∀ f ops, R f ops → R' f ops) : FnTable R' m offs recs :=
  ⟨h.num, h.head, h.gaps, h.inside, h.only, h.len, fun i o ops ho hops => by
    obtain ⟨f, hf, hr⟩ := h.carries i o ops ho hops
    exact ⟨f, hf, himp f ops hr⟩⟩

/-- Where the struct of the FUNCTION record that comes next is put. -/
def offsetAt (buf : List UInt8) (s : Reader) : List Nat :=
  (functionRecordAt buf s).map fun _ => align8 s.m.arena.used

theorem FnTable.effect (h : FnTable Recorded s.m offs recs) (he : Effect env buf s m')
    (hu : m'.arena.used ≤ 2^32) :
    FnTable Recorded m' (offs ++ offsetAt buf s) (recs ++ functionRecordAt buf s) := by
  have hnone : functionRecordAt buf s = [] → FnTable Recorded m' offs recs →
      FnTable Recorded m' (offs ++ offsetAt buf s) (recs ++ functionRecordAt buf s) := by
    intro hf ht
    rw [offsetAt, hf, List.map_nil, List.append_nil, List.append_nil]
    exact ht
  cases he with
  | kept hf hs hk => exact hnone hf (h.kept hk hu)
  | function ops hf hs hlen hm =>
    rw [offsetAt, hf]
    exact h.add hlen hm hu (recorded_self ops)
  | body hf hs i start len hm =>
    refine hnone hf ?_
    rw [hm, (storeFunction_same _ _ _).used] at hu
    rw [hm]
    exact (h.kept (derive_kept s.m) hu).storeFunction i
      fun f ops hr => ⟨⟨hr.1.1, hr.1.2, hr.1.3, hr.1.4, hr.1.5, hr.1.6⟩, hr.2⟩
  | strtab b bs hf hs w code ops hm =>
    obtain ⟨m₁, hk, heq, -⟩ := strtabRecord_cells hm
    rw [heq] at hu
    have ht := h.kept hk hu
    refine hnone hf ?_
    rw [heq]
    exact ⟨ht.num, ht.head, ht.gaps, ht.inside, ht.only, ht.len, ht.carries⟩

/-- STRTAB is the last of `blobs`. -/
def HasStrtab (m : AirModule) (blobs : List (List UInt8)) : Prop :=
  match blobs.getLast? with
  | none => m.strtabOffset = 0 ∧ m.strtabLen = 0
  | some bs => bs ≠ [] ∧ m.strtabOffset ≠ 0 ∧ m.strtabOffset < m.arena.used ∧
    m.strtabLen = bs.length ∧ m.arena.cells m.strtabOffset = some (.bytes bs)

theorem HasStrtab.effect {blobs : List (List UInt8)} (h : HasStrtab s.m blobs)
    (he : Effect env buf s m') (hu : m'.arena.used ≤ 2^32) :
    HasStrtab m' (blobs ++ strtabBlobAt buf s) := by
  by_cases hs : strtabBlobAt buf s = []
  · obtain ⟨hoff, hlen⟩ := he.strtab_fields hs
    rw [hs, List.append_nil]
    cases hl : blobs.getLast? with
    | none =>
      simp only [HasStrtab, hl] at h ⊢
      rw [hoff, hlen]
      exact h
    | some bs =>
      simp only [HasStrtab, hl] at h ⊢
      obtain ⟨hne, h0, hlt, hbs, hcell⟩ := h
      rw [hoff, hlen]
      exact ⟨hne, h0, Nat.lt_of_lt_of_le hlt he.used_le, hbs, he.bytes hu hlt hcell⟩
  · cases he with
    | kept hf hs' hk => exact absurd hs' hs
    | function ops hf hs' hlen hm => exact absurd hs' hs
    | body hf hs' i start len hm => exact absurd hs' hs
    | strtab b bs hf hs' w code ops hm =>
      obtain ⟨m₁, hk, heq, h0, hcell⟩ := strtabRecord_cells hm
      obtain ⟨hlt, hbytes⟩ := hcell hu
      have hlen : m'.strtabLen = bs.length+1 := by rw [heq]
      rw [hs', HasStrtab, List.getLast?_concat]
      exact ⟨List.cons_ne_nil _ _, h0, hlt, hlen, hbytes⟩

/-- The table and STRTAB at the end of the walks. -/
theorem table_run {blobs : List (List UInt8)} {n : Nat} (h : FnTable Recorded s.m offs recs)
    (hb : HasStrtab s.m blobs) (hrun : run (readerStep env buf) n s = .inr (.finished m'))
    (hu : m'.arena.used ≤ 2^32) :
    FnTable Recorded m' (offs ++ trace (readerStep env buf) (offsetAt buf) n s)
      (recs ++ trace (readerStep env buf) (functionRecordAt buf) n s) ∧
    HasStrtab m' (blobs ++ trace (readerStep env buf) (strtabBlobAt buf) n s) := by
  induction n generalizing s offs recs blobs with
  | zero => cases hrun
  | succ n ih =>
    cases hst : readerStep env buf s with
    | inl t =>
      rw [run_succ_inl hst] at hrun
      have he := readerStep_effect hst
      have htu : t.m.arena.used ≤ 2^32 := Nat.le_trans (run_used_le hrun) hu
      have hgo := ih (h.effect he htu) (hb.effect he htu) hrun
      simp only [trace_succ_inl _ hst, ← List.append_assoc]
      exact hgo
    | inr r =>
      rw [run_succ_inr hst] at hrun
      cases hrun
      obtain ⟨hm, hf, hs⟩ := readerStep_finished hst
      simp only [trace_succ_inr _ hst, offsetAt, hf, hs, List.map_nil, List.append_nil, hm]
      exact ⟨h, hb⟩

/- When the structs lie one after the other. -/

def Contiguous (offs : List Nat) : Prop :=
  ∀ i o, offs[i]? = some o → o = offs.headD 0+sizeofAirFunction*i

theorem contiguous_append {o : Nat} : Contiguous (offs ++ [o]) ↔
    Contiguous offs ∧ (offs ≠ [] → o = offs.headD 0+sizeofAirFunction*offs.length) := by
  cases offs with
  | nil =>
    simp only [List.nil_append, ne_eq, not_true_eq_false, false_implies, and_true]
    constructor
    · intro _ i o' ho
      cases ho
    · intro _ i o' ho
      cases i with
      | zero => cases ho; rfl
      | succ i => cases ho
  | cons a as =>
    have hhead : ((a::as) ++ [o]).headD 0 = a := rfl
    constructor
    · intro h
      refine ⟨fun i o' ho => ?_, fun _ => ?_⟩
      · have hi : i < (a::as).length := (List.getElem?_eq_some_iff.1 ho).1
        exact h i o' (by rw [List.getElem?_append_left hi]; exact ho)
      · exact h (a::as).length o (List.getElem?_concat_length ..)
    · rintro ⟨h, hlast⟩ i o' ho
      rcases Nat.lt_trichotomy i (a::as).length with hi | hi | hi
      · rw [List.getElem?_append_left hi] at ho
        exact h i o' ho
      · rw [hi, List.getElem?_concat_length] at ho
        cases ho
        rw [hi]
        exact hlast (List.cons_ne_nil _ _)
      · rw [List.getElem?_eq_none (by rw [List.length_append]; exact hi)] at ho
        cases ho

theorem Contiguous.of_append {rest : List Nat} (h : Contiguous (offs ++ rest)) :
    Contiguous offs := by
  intro i o ho
  have hi : i < offs.length := (List.getElem?_eq_some_iff.1 ho).1
  have hhead : (offs ++ rest).headD 0 = offs.headD 0 := by
    cases offs with
    | nil => cases hi
    | cons a as => rfl
  rw [← hhead]
  exact h i o (by rw [List.getElem?_append_left hi]; exact ho)

/-- When a FUNCTION record comes next, the arena ends where the table ends. -/
def TableAtEnd (buf : List UInt8) (s : Reader) : Prop :=
  functionRecordAt buf s ≠ [] → s.m.numFunctions ≠ 0 →
    align8 s.m.arena.used = s.m.functionsOff+sizeofAirFunction*s.m.numFunctions

instance (buf : List UInt8) (s : Reader) : Decidable (TableAtEnd buf s) :=
  inferInstanceAs (Decidable (_ → _ → _))

theorem contiguous_effect (h : FnTable R s.m offs recs) (hc : Contiguous offs)
    (he : Effect env buf s m') : Contiguous (offs ++ offsetAt buf s) ↔ TableAtEnd buf s := by
  have hnone : functionRecordAt buf s = [] →
      (Contiguous (offs ++ offsetAt buf s) ↔ TableAtEnd buf s) := by
    intro hf
    rw [offsetAt, hf, List.map_nil, List.append_nil]
    exact ⟨fun _ hne => absurd hf hne, fun _ => hc⟩
  cases he with
  | kept hf => exact hnone hf
  | body hf => exact hnone hf
  | strtab b bs hf => exact hnone hf
  | function ops hf =>
    rw [offsetAt, TableAtEnd, hf, List.map_singleton, contiguous_append, h.num, ← h.head]
    constructor
    · rintro ⟨-, hlast⟩ - hne
      exact hlast (by rwa [Ne, List.length_eq_zero_iff] at hne)
    · intro hlast
      refine ⟨hc, fun hne => hlast (List.cons_ne_nil _ _) ?_⟩
      rwa [Ne, List.length_eq_zero_iff]

theorem contiguous_run {n : Nat} (h : FnTable Recorded s.m offs recs) (hc : Contiguous offs)
    (hrun : run (readerStep env buf) n s = .inr (.finished m')) (hu : m'.arena.used ≤ 2^32) :
    Contiguous (offs ++ trace (readerStep env buf) (offsetAt buf) n s) ↔
      ∀ u, Reaches (readerStep env buf) s u → TableAtEnd buf u := by
  induction n generalizing s offs recs with
  | zero => cases hrun
  | succ n ih =>
    cases hst : readerStep env buf s with
    | inl t =>
      rw [run_succ_inl hst] at hrun
      have he := readerStep_effect hst
      have htu : t.m.arena.used ≤ 2^32 := Nat.le_trans (run_used_le hrun) hu
      have hstep := contiguous_effect h hc he
      rw [reaches_forall hst, ← hstep, trace_succ_inl _ hst, ← List.append_assoc]
      constructor
      · intro hall
        have hnow := hall.of_append
        exact ⟨hnow, (ih (h.effect he htu) hnow hrun).1 hall⟩
      · rintro ⟨hnow, hlater⟩
        exact (ih (h.effect he htu) hnow hrun).2 hlater
    | inr r =>
      rw [run_succ_inr hst] at hrun
      cases hrun
      obtain ⟨hm, hf, hs⟩ := readerStep_finished hst
      rw [trace_succ_inr _ hst, offsetAt, hf, List.map_nil, List.append_nil]
      refine ⟨fun _ u hu' => ?_, fun _ => hc⟩
      rcases reaches_iff.1 hu' with rfl | ⟨t, ht, -⟩
      · exact fun hne => absurd hf hne
      · rw [hst] at ht
        cases ht

/- The pass over the names. -/

theorem functionAt_iff {i : Nat} {f : AirFunction} :
    m.functionAt i = some f ↔ m.arena.cells (m.functionSlot i) = some (.function f) := by
  rw [AirModule.functionAt]
  split
  · rename_i f' hcell
    rw [hcell]
    simp
  · rename_i hno
    constructor
    · intro h
      cases h
    · intro h
      exact absurd h (hno f)

theorem FnTable.slot (h : FnTable R m offs recs) (hc : Contiguous offs) {i o : Nat}
    (ho : offs[i]? = some o) : m.functionSlot i = o := by
  rw [AirModule.functionSlot, h.head]
  exact (hc i o ho).symm

theorem storeFunction_live {p : Ptr} {i : Nat} {f : AirFunction} (hp : m.functionsPtr = some p)
    (hg : p.generation = m.arena.generation) (hf : m.functionAt i = some f)
    (g : AirFunction → AirFunction) : (m.storeFunction i g).arena.cells =
      Function.update m.arena.cells (m.functionSlot i) (some (.function (g f))) := by
  simp only [AirModule.storeFunction, hp, hf, if_pos hg]
  rfl

/-- The name of a record, if it lies in STRTAB. -/
def nameIn (strtab : List UInt8) (ops : List Nat) : Option (List UInt8) :=
  if u32 (ops.getD 1 0) = 0 ∨ strtab.length < u32 (ops.getD 0 0)+u32 (ops.getD 1 0) then none
  else some (window strtab (u32 (ops.getD 0 0)) (u32 (ops.getD 1 0)))

/-- The name of a function struct: a string of the arena, or offset 0 for none. -/
def AirModule.NamedAs (m : AirModule) (f : AirFunction) : Option (List UInt8) → Prop
  | none => f.nameOffset = 0
  | some bs => f.nameOffset ≠ 0 ∧ f.nameOffset < m.arena.used ∧
    m.arena.cells f.nameOffset = some (.bytes (bs ++ [0]))

theorem AirModule.NamedAs.kept {f : AirFunction} {name : Option (List UInt8)}
    (h : m.NamedAs f name) (hk : ModuleKept m m') (hu : m'.arena.used ≤ 2^32) : m'.NamedAs f name := by
  cases name with
  | none => exact h
  | some bs =>
    obtain ⟨h0, hlt, hcell⟩ := h
    exact ⟨h0, Nat.lt_of_lt_of_le hlt hk.used, by rw [hk.below hu _ hlt, hcell]⟩

theorem AirModule.NamedAs.store {f : AirFunction} {name : Option (List UInt8)}
    (h : m.NamedAs f name) (i : Nat) (g : AirFunction → AirFunction) :
    (m.storeFunction i g).NamedAs f name := by
  cases name with
  | none => exact h
  | some bs =>
    obtain ⟨h0, hlt, hcell⟩ := h
    exact ⟨h0, by rw [(storeFunction_same m i g).used]; exact hlt, storeFunction_bytes m i g hcell⟩

/-- Before function `i` of the pass: the names of the first `i` are done. -/
structure Resolving (strtab : List UInt8) (offs : List Nat) (recs : List (List Nat)) (i : Nat)
    (m : AirModule) : Prop where
  table : FnTable AirFunction.Declares m offs recs
  live : offs ≠ [] → ∃ p, m.functionsPtr = some p ∧ p.generation = m.arena.generation
  bytes : m.strtabOffset < m.arena.used ∧ m.arena.cells m.strtabOffset = some (.bytes strtab)
  done : ∀ (j o : Nat) (ops : List Nat), j < i → offs[j]? = some o → recs[j]? = some ops →
    ∃ f, m.arena.cells o = some (.function f) ∧ m.NamedAs f (nameIn strtab ops)
  todo : ∀ (j o : Nat) (ops : List Nat), i ≤ j → offs[j]? = some o → recs[j]? = some ops →
    ∃ f, m.arena.cells o = some (.function f) ∧ f.nameOffset = u32 (ops.getD 0 0)

theorem Resolving.kept {strtab : List UInt8} {i : Nat} (h : Resolving strtab offs recs i m)
    (hk : ModuleKept m m') (hu : m'.arena.used ≤ 2^32)
    (hlive : offs ≠ [] → ∃ p, m'.functionsPtr = some p ∧ p.generation = m'.arena.generation) :
    Resolving strtab offs recs i m' := by
  have hbelow : ∀ o ∈ offs, m'.arena.cells o = m.arena.cells o := by
    intro o ho
    have hin := (h.table.inside o ho).2
    rw [sizeofAirFunction] at hin
    exact hk.below hu o (by omega)
  refine ⟨h.table.kept hk hu, hlive, ?_, ?_, ?_⟩
  · rw [hk.strtab.1, hk.below hu _ h.bytes.1]
    exact ⟨Nat.lt_of_lt_of_le h.bytes.1 hk.used, h.bytes.2⟩
  · intro j o ops hj ho hops
    obtain ⟨f, hf, hn⟩ := h.done j o ops hj ho hops
    exact ⟨f, by rw [hbelow o (List.mem_of_getElem? ho), hf], hn.kept hk hu⟩
  · intro j o ops hj ho hops
    obtain ⟨f, hf, hn⟩ := h.todo j o ops hj ho hops
    exact ⟨f, by rw [hbelow o (List.mem_of_getElem? ho), hf], hn⟩

theorem declares_rename {k : Nat} (f : AirFunction) (ops : List Nat) (h : f.Declares ops) :
    AirFunction.Declares { f with nameOffset := k } ops :=
  ⟨h.1, h.2, h.3, h.4, h.5, h.6⟩

/-- Function `i` gets its name. -/
theorem Resolving.store {strtab : List UInt8} {i o k : Nat} {ops : List Nat} {f : AirFunction}
    (h : Resolving strtab offs recs i m) (hc : Contiguous offs) (ho : offs[i]? = some o)
    (hops : recs[i]? = some ops) (hf : m.arena.cells o = some (.function f))
    (hname : m.NamedAs { f with nameOffset := k } (nameIn strtab ops)) :
    Resolving strtab offs recs (i+1) (m.storeFunction i fun f => { f with nameOffset := k }) := by
  obtain ⟨p, hp, hg⟩ := h.live (List.ne_nil_of_mem (List.mem_of_getElem? ho))
  have hslot := h.table.slot hc ho
  have hsame := storeFunction_same m i fun f => { f with nameOffset := k }
  have hcells := storeFunction_live hp hg (functionAt_iff.2 (by rw [hslot]; exact hf))
    fun f => { f with nameOffset := k }
  rw [hslot] at hcells
  have hother : ∀ (j o' : Nat), j ≠ i → offs[j]? = some o' → o' ≠ o := by
    intro j o' hj ho' heq
    have h₁ := hc j o' ho'
    have h₂ := hc i o ho
    rw [sizeofAirFunction] at h₁ h₂
    omega
  refine ⟨h.table.storeFunction i declares_rename, fun _ => ⟨p, ?_, ?_⟩, ?_, ?_, ?_⟩
  · rw [hsame.ptr, hp]
  · rw [hsame.generation, hg]
  · rw [hsame.strtab.1, hsame.used]
    exact ⟨h.bytes.1, storeFunction_bytes m i _ h.bytes.2⟩
  · intro j o' ops' hj ho' hops'
    by_cases hji : j = i
    · subst hji
      rw [ho] at ho'
      rw [hops] at hops'
      cases ho'
      cases hops'
      exact ⟨_, by rw [hcells, Function.update_self], hname.store j _⟩
    · obtain ⟨f', hf', hn'⟩ := h.done j o' ops' (by omega) ho' hops'
      exact ⟨f', by rw [hcells, Function.update_of_ne (hother j o' hji ho'), hf'], hn'.store i _⟩
  · intro j o' ops' hj ho' hops'
    obtain ⟨f', hf', hn'⟩ := h.todo j o' ops' (by omega) ho' hops'
    exact ⟨f', by rw [hcells, Function.update_of_ne (hother j o' (by omega) ho'), hf'], hn'⟩

theorem derive_live (h : FnTable R m offs recs) (hne : offs ≠ []) :
    ∃ p, (deriveTablePtrs m).functionsPtr = some p ∧
      p.generation = (deriveTablePtrs m).arena.generation := by
  have h0 : m.functionsOff ≠ 0 := by
    rw [h.head]
    cases offs with
    | nil => exact absurd rfl hne
    | cons o os => exact Nat.ne_of_gt (h.inside o List.mem_cons_self).1
  exact ⟨m.arena.ptr m.functionsOff, by simp only [deriveTablePtrs, if_neg h0], rfl⟩

/-- An iteration of the pass: something at the end of the arena, and one name stored. -/
theorem resolveNames_succ {strtabLen left i : Nat}
    (h : resolveNames env strtabLen (left+1) i m = some m') : ∃ m₁ k, ModuleKept m m₁ ∧
      resolveNames env strtabLen left (i+1)
        (m₁.storeFunction i fun f => { f with nameOffset := k }) = some m' := by
  simp only [resolveNames] at h
  split_ifs at h
  · exact ⟨m, 0, .refl m, h⟩
  · exact ⟨_, _, (intern_kept env m _ fun f hc => by cases hc).trans (derive_kept _), h⟩

theorem resolveNames_used {strtabLen left i : Nat}
    (h : resolveNames env strtabLen left i m = some m') : m.arena.used ≤ m'.arena.used := by
  induction left generalizing i m with
  | zero => cases h; exact Nat.le_refl _
  | succ left ih =>
    obtain ⟨m₁, k, hk, hrest⟩ := resolveNames_succ h
    have hle := ih hrest
    rw [(storeFunction_same _ _ _).used] at hle
    exact Nat.le_trans hk.used hle

theorem resolveNames_table {strtabLen left i : Nat}
    (ht : FnTable AirFunction.Declares m offs recs)
    (h : resolveNames env strtabLen left i m = some m') (hu : m'.arena.used ≤ 2^32) :
    FnTable AirFunction.Declares m' offs recs := by
  induction left generalizing i m with
  | zero => cases h; exact ht
  | succ left ih =>
    obtain ⟨m₁, k, hk, hrest⟩ := resolveNames_succ h
    have hle := resolveNames_used hrest
    rw [(storeFunction_same _ _ _).used] at hle
    exact ih ((ht.kept hk (Nat.le_trans hle hu)).storeFunction i declares_rename) hrest

theorem clearNames_table {left i : Nat} (ht : FnTable AirFunction.Declares m offs recs) :
    FnTable AirFunction.Declares (clearNames left i m) offs recs := by
  induction left generalizing i m with
  | zero => exact ht
  | succ left ih => exact ih (ht.storeFunction i declares_rename)

theorem clearNames_used (left i : Nat) (m : AirModule) :
    (clearNames left i m).arena.used = m.arena.used := by
  induction left generalizing i m with
  | zero => rfl
  | succ left ih => rw [clearNames, ih, (storeFunction_same _ _ _).used]

/-- Over a contiguous table every function gets the name of its record. -/
theorem resolveNames_names {strtab : List UInt8} {left i : Nat}
    (h : Resolving strtab offs recs i m) (hc : Contiguous offs) (hi : i+left = offs.length)
    (hres : resolveNames env strtab.length left i m = some m') (hu : m'.arena.used ≤ 2^32) :
    Resolving strtab offs recs (i+left) m' := by
  induction left generalizing i m with
  | zero => cases hres; exact h
  | succ left ih =>
    have hlt : i < offs.length := by omega
    have ho : offs[i]? = some offs[i] := List.getElem?_eq_getElem hlt
    have hltr : i < recs.length := Nat.lt_of_lt_of_eq hlt h.table.len
    have hops : recs[i]? = some recs[i] := List.getElem?_eq_getElem hltr
    generalize offs[i] = o at ho
    generalize recs[i] = ops at hops
    obtain ⟨f, hf, hoffset⟩ := h.todo i o ops (Nat.le_refl _) ho hops
    obtain ⟨f', hf', hdecl⟩ := h.table.carries i o ops ho hops
    rw [hf] at hf'
    cases hf'
    have hat : m.functionAt i = some f := functionAt_iff.2 (by rw [h.table.slot hc ho]; exact hf)
    have hload : m.loadFunction env i = f := by rw [AirModule.loadFunction, hat]; rfl
    have hnext : ∀ m₁, Resolving strtab offs recs (i+1) m₁ →
        resolveNames env strtab.length left (i+1) m₁ = some m' →
        Resolving strtab offs recs (i+(left+1)) m' := by
      intro m₁ h₁ hr
      rw [show i+(left+1) = i+1+left by omega]
      exact ih h₁ (by omega) hr
    simp only [resolveNames, hload, hdecl.nameLength, hoffset] at hres
    by_cases hout : u32 (ops.getD 1 0) = 0 ∨
        strtab.length < u32 (ops.getD 0 0)+u32 (ops.getD 1 0)
    · rw [if_pos hout] at hres
      refine hnext _ (h.store hc ho hops hf ?_) hres
      rw [nameIn, if_pos hout]
      rfl
    · rw [if_neg hout, h.bytes.2] at hres
      simp only at hres
      generalize hbs : window strtab (u32 (ops.getD 0 0)) (u32 (ops.getD 1 0)) = bs at hres
      split_ifs at hres with h0
      have hle := resolveNames_used hres
      rw [(storeFunction_same _ _ _).used] at hle
      have hsmall := Nat.le_trans hle hu
      have hk := (intern_kept env m (u32 (ops.getD 1 0)+1) (c := .bytes (bs ++ [0]))
        fun f hc => by cases hc)
      obtain ⟨hoff, hend, hcells⟩ := intern_cells h0 hsmall
      have h₁ := h.kept (hk.trans (derive_kept _)) hsmall
        (derive_live (h.table.kept hk hsmall))
      have hlt' : o < m.arena.used := by
        have hin := (h.table.inside o (List.mem_of_getElem? ho)).2
        rw [sizeofAirFunction] at hin
        omega
      refine hnext _ (h₁.store hc ho hops ((hk.below hsmall o hlt').trans hf) ?_) hres
      rw [nameIn, if_neg hout, hbs]
      have hname : (m.intern env (u32 (ops.getD 1 0)+1) (.bytes (bs ++ [0]))).1 <
          (m.intern env (u32 (ops.getD 1 0)+1) (.bytes (bs ++ [0]))).2.arena.used := by
        rw [hoff, hend]
        omega
      have hcell : (m.intern env (u32 (ops.getD 1 0)+1) (.bytes (bs ++ [0]))).2.arena.cells
          (m.intern env (u32 (ops.getD 1 0)+1) (.bytes (bs ++ [0]))).1 =
            some (.bytes (bs ++ [0])) := by
        rw [hoff, hcells, Function.update_self]
      exact ⟨h0, hname, hcell⟩

/-- After the names: the array of metadata strings and the pointers. -/
theorem finishOpen_kept {r : AirModule} (h : finishOpen env m = .ok r) :
    ∃ m₁, strtabPass env m = some m₁ ∧ ModuleKept m₁ r := by
  simp only [finishOpen] at h
  cases hs : strtabPass env m with
  | none => rw [hs] at h; cases h
  | some m₁ =>
    refine ⟨m₁, rfl, ?_⟩
    simp only [hs] at h
    cases hm : materializeStrings env m₁ with
    | none => rw [hm] at h; cases h
    | some m₂ =>
      simp only [hm, Except.ok.injEq] at h
      have hk : ModuleKept m₁ m₂ := by
        simp only [materializeStrings] at hm
        split_ifs at hm
        · cases hm; exact .refl _
        · cases hm
          exact (reserve_kept env m₁ _).trans (.of_arena rfl rfl rfl rfl rfl rfl rfl)
      rw [← h]
      split_ifs
      · exact hk.trans (derive_kept m₂)
      · exact (hk.trans (derive_kept m₂)).trans (.of_arena rfl rfl rfl rfl rfl rfl rfl)

/-- A blob the reader accepts: its walks end within `n` iterations with the module `m`, and
`r` is what the caller gets. -/
structure OpenRun (env : ReaderEnv) (blob buf : List UInt8) (n : Nat) (m₀ m r : AirModule) :
    Prop where
  wrapper : parseWrapper blob = some buf
  init : initModule env buf = some m₀
  walks : run (readerStep env buf) n (.start m₀) = .inr (.finished m)
  finish : finishOpen env m = .ok r

theorem opens_ok_iff {blob : List UInt8} {r : AirModule} :
    Opens env blob (.ok r) ↔ ∃ buf n m₀ m, OpenRun env blob buf n m₀ m r := by
  constructor
  · rintro ⟨n, h⟩
    simp only [airModuleOpen] at h
    split_ifs at h
    · cases h
    split at h
    · cases h
    · rename_i buf hb
      split at h
      · cases h
      · rename_i m₀ hm
        split at h
        · cases h
        · cases h
        · rename_i m hrun
          exact ⟨buf, n, m₀, m, hb, hm, hrun, Option.some.inj h⟩
  · rintro ⟨buf, n, m₀, m, hb, hm, hrun, hr⟩
    have hne : blob ≠ [] := by
      intro hnil
      rw [hnil] at hb
      cases hb
    exact ⟨n, by simp only [airModuleOpen, if_neg hne, hb, hm, hrun, hr]⟩

/-- `P` of the bitstream, the module before the walks and the returned one, if the blob is
accepted within `n` iterations. -/
def acceptedWith (env : ReaderEnv) (n : Nat) (blob : List UInt8)
    (P : List UInt8 → AirModule → AirModule → Bool) : Bool :=
  match parseWrapper blob with
  | none => false
  | some buf =>
    match initModule env buf with
    | none => false
    | some m₀ =>
      match run (readerStep env buf) n (.start m₀) with
      | .inr (.finished m) =>
        match finishOpen env m with
        | .ok r => P buf m₀ r
        | .error _ => false
      | _ => false

theorem openRun_of_accepted (env : ReaderEnv) (n : Nat) (blob : List UInt8)
    (P : List UInt8 → AirModule → AirModule → Bool) (h : acceptedWith env n blob P = true) :
    ∃ buf m₀ m r, OpenRun env blob buf n m₀ m r ∧ P buf m₀ r = true := by
  rw [acceptedWith] at h
  split at h
  · cases h
  · rename_i buf hb
    split at h
    · cases h
    · rename_i m₀ hm
      split at h
      · rename_i m hrun
        split at h
        · rename_i r hr
          exact ⟨buf, m₀, m, r, ⟨hb, hm, hrun, hr⟩, h⟩
        · cases h
      · cases h

theorem initModule_table {m₀ : AirModule} (h : initModule env buf = some m₀) :
    FnTable Recorded m₀ [] [] ∧ HasStrtab m₀ [] := by
  simp only [initModule] at h
  split_ifs at h
  cases h
  have hfresh : ∀ (n : Nat) (c : Cell), (∀ f, c ≠ .function f) → FnTable Recorded
      (AirModule.intern env { arena := Arena.init (16*1024) 2 } n c).2 [] [] ∧
      HasStrtab (AirModule.intern env { arena := Arena.init (16*1024) 2 } n c).2 [] := by
    intro n c hc
    have hcells : ∀ o, ¬ Cell.IsFunction
        ((AirModule.intern env { arena := Arena.init (16*1024) 2 } n c).2.arena.cells o) := by
      rintro o ⟨f, hf⟩
      rw [intern_eq] at hf
      have hempty : ∀ o, (AirModule.reserve env { arena := Arena.init (16*1024) 2 } n).2.arena.cells
          o = none := fun o => by
        rw [AirModule.reserve]
        simp only [(arenaReserve_cases env _ n).2, Arena.init]
      split_ifs at hf with h0
      · rw [hempty] at hf
        cases hf
      · simp only [AirModule.put, Arena.put] at hf
        by_cases heq : o = (AirModule.reserve env { arena := Arena.init (16*1024) 2 } n).1
        · rw [heq, Function.update_self] at hf
          exact hc f (Option.some.inj hf)
        · rw [Function.update_of_ne heq, hempty] at hf
          cases hf
    have hk := intern_kept env { arena := Arena.init (16*1024) 2 } n hc
    refine ⟨⟨hk.num, hk.off, .nil, ?_, fun o ho => absurd ho (hcells o), rfl, ?_⟩, hk.strtab⟩
    · intro o ho
      cases ho
    · intro i o ops ho
      cases ho
  obtain ⟨ht, hs⟩ := hfresh buf.length (.bytes buf) fun f hc => by cases hc
  exact ⟨⟨ht.num, ht.head, ht.gaps, ht.inside, ht.only, ht.len, ht.carries⟩, hs⟩

/-- The table of the returned module is the sequence of the records: as many entries as
records, and entry `i` declares what record `i` does, under its STRTAB name. -/
def TableRight (r : AirModule) (recs : List (List Nat)) (blobs : List (List UInt8)) : Prop :=
  r.numFunctions = recs.length ∧ ∀ i ops, recs[i]? = some ops →
    ∃ f, r.functionAt i = some f ∧ f.Declares ops ∧
      ∀ strtab, blobs.getLast? = some strtab → r.NamedAs f (nameIn strtab ops)

theorem contiguous_of_entries (h : FnTable R m offs recs)
    (hall : ∀ i ops, recs[i]? = some ops → ∃ f, m.functionAt i = some f) : Contiguous offs := by
  intro i
  induction i with
  | zero =>
    intro o ho
    cases offs with
    | nil => cases ho
    | cons a as => cases ho; rfl
  | succ i ih =>
    intro o ho
    have hlt : i+1 < offs.length := (List.getElem?_eq_some_iff.1 ho).1
    have hprev := ih offs[i] (List.getElem?_eq_getElem (by omega))
    have hltr : i+1 < recs.length := Nat.lt_of_lt_of_eq hlt h.len
    obtain ⟨f, hf⟩ := hall (i+1) recs[i+1] (List.getElem?_eq_getElem hltr)
    have hmem := h.only _ ⟨f, functionAt_iff.1 hf⟩
    rw [AirModule.functionSlot, h.head] at hmem
    obtain ⟨j, hj, hslot⟩ := List.getElem_of_mem hmem
    obtain ⟨hlt', hoi⟩ := List.getElem?_eq_some_iff.1 ho
    have hgap := List.pairwise_iff_getElem.1 h.gaps
    -- the slot is one of the offsets behind `offs[i]`, and `o` is the first of these
    have hij : i < j := by
      by_contra hle
      rcases Nat.lt_or_ge j i with hji | hji
      · have := hgap j i hj (by omega) hji
        rw [sizeofAirFunction] at this hslot hprev
        omega
      · have hje : j = i := by omega
        subst hje
        rw [sizeofAirFunction] at hslot hprev
        omega
    rcases Nat.lt_or_ge (i+1) j with hlate | hnow
    · have h₁ := hgap i (i+1) (by omega) hlt (by omega)
      have h₂ := hgap (i+1) j hlt hj hlate
      rw [sizeofAirFunction] at h₁ h₂ hslot hprev
      omega
    · have hje : j = i+1 := by omega
      subst hje
      rw [← hoi, hslot]

theorem strtabPass_used (h : strtabPass env m = some m') : m.arena.used ≤ m'.arena.used := by
  simp only [strtabPass] at h
  split_ifs at h
  · exact resolveNames_used (m := deriveTablePtrs m) h
  · cases h
    rw [clearNames_used]

/-- The names get in and the structs keep the rest. -/
theorem FnTable.strtabPass (h : FnTable Recorded m offs recs) (hp : Lagfx.strtabPass env m = some m')
    (hu : m'.arena.used ≤ 2^32) : FnTable AirFunction.Declares m' offs recs := by
  have hdecl := h.imp fun f ops hr => hr.1
  have hu₀ := Nat.le_trans (strtabPass_used hp) hu
  simp only [Lagfx.strtabPass] at hp
  split_ifs at hp
  · exact resolveNames_table (hdecl.kept (derive_kept m) hu₀) hp hu
  · cases hp
    exact clearNames_table hdecl

/-- After a run that stays below 4 GiB of arena, the function table is the sequence of the
FUNCTION records if and only if at each of them the arena ended where the table ended. -/
theorem function_table_iff (env : ReaderEnv) {blob buf : List UInt8} {n : Nat}
    {m₀ m r : AirModule} (h : OpenRun env blob buf n m₀ m r) (hu : r.arena.used ≤ 2^32) :
    TableRight r (trace (readerStep env buf) (functionRecordAt buf) n (.start m₀))
      (trace (readerStep env buf) (strtabBlobAt buf) n (.start m₀)) ↔
    ∀ s, Reaches (readerStep env buf) (.start m₀) s → TableAtEnd buf s := by
  obtain ⟨hstart, hblobs⟩ := initModule_table h.init
  obtain ⟨m₁, hpass, hk⟩ := finishOpen_kept h.finish
  have hu₁ : m₁.arena.used ≤ 2^32 := Nat.le_trans hk.used hu
  have hnil : Contiguous [] := fun i o ho => by cases ho
  have hu₀ : m.arena.used ≤ 2^32 := Nat.le_trans (strtabPass_used hpass) hu₁
  obtain ⟨htable, hstrtab⟩ := table_run (s := .start m₀) hstart hblobs h.walks hu₀
  rw [← contiguous_run (s := .start m₀) hstart hnil h.walks hu₀]
  simp only [List.nil_append] at htable hstrtab ⊢
  generalize trace (readerStep env buf) (offsetAt buf) n (.start m₀) = offs at *
  generalize trace (readerStep env buf) (functionRecordAt buf) n (.start m₀) = recs at *
  generalize trace (readerStep env buf) (strtabBlobAt buf) n (.start m₀) = blobs at *
  have hdecl := htable.imp fun f ops hr => hr.1
  have htable₁ := htable.strtabPass hpass hu₁
  have hfinal := htable₁.kept hk hu
  constructor
  · rintro ⟨-, hall⟩
    exact contiguous_of_entries hfinal fun i ops hops => by
      obtain ⟨f, hf, -⟩ := hall i ops hops
      exact ⟨f, hf⟩
  · intro hc
    refine ⟨by rw [hfinal.num, hfinal.len], ?_⟩
    intro i ops hops
    have hlt : i < offs.length := by
      rw [hfinal.len]
      exact (List.getElem?_eq_some_iff.1 hops).1
    have ho : offs[i]? = some offs[i] := List.getElem?_eq_getElem hlt
    obtain ⟨f, hf, hdec⟩ := hfinal.carries i _ ops ho hops
    refine ⟨f, functionAt_iff.2 (by rw [hfinal.slot hc ho, hf]), hdec, ?_⟩
    intro strtab hlast
    simp only [HasStrtab, hlast] at hstrtab
    obtain ⟨hne, h0, hlt', hlen, hcell⟩ := hstrtab
    have hpos : 0 < strtab.length := List.length_pos_iff.2 hne
    simp only [strtabPass, hlen] at hpass
    rw [if_pos ⟨h0, hpos⟩] at hpass
    have hready : Resolving strtab offs recs 0 (deriveTablePtrs m) := by
      refine ⟨hdecl.kept (derive_kept m) hu₀, derive_live htable, ⟨hlt', hcell⟩, ?_, ?_⟩
      · intro j o ops hj
        exact absurd hj (Nat.not_lt_zero j)
      · intro j o ops _ ho hops
        obtain ⟨f, hf, hr⟩ := htable.carries j o ops ho hops
        exact ⟨f, hf, hr.2⟩
    have hdone := resolveNames_names hready hc (by rw [Nat.zero_add]; exact htable.num) hpass hu₁
    obtain ⟨f', hf', hname⟩ := hdone.done i _ ops (by
      rw [Nat.zero_add]
      exact Nat.lt_of_lt_of_eq hlt htable.num.symm) ho hops
    have hin := (htable₁.inside _ (List.mem_of_getElem? ho)).2
    rw [sizeofAirFunction] at hin
    rw [hk.below hu _ (by omega), hf'] at hf
    cases hf
    exact hname.kept hk hu

/- Two FUNCTION records, one after the other, and a STRTAB of three bytes. -/
def twoFunctionsBlob : List UInt8 :=
  [0xDE, 0xC0, 0x17, 0x0B, 0, 0, 0, 0, 20, 0, 0, 0, 48, 0, 0, 0,
   255, 255, 255, 255, 66, 67, 192, 222, 33, 12, 0, 0, 4, 0, 0, 0,
   67, 14, 32, 40, 128, 96, 0, 134, 28, 129, 96, 0, 0, 32, 0, 0,
   93, 12, 0, 0, 3, 0, 0, 0, 18, 3, 148, 3, 97, 98, 99, 0,
   0, 0, 0, 0]

theorem function_table_consecutive : ∃ buf m₀ m r,
    OpenRun allGranted twoFunctionsBlob buf 10 m₀ m r ∧ r.numFunctions = 2 ∧
    TableRight r (trace (readerStep allGranted buf) (functionRecordAt buf) 10 (.start m₀))
      (trace (readerStep allGranted buf) (strtabBlobAt buf) 10 (.start m₀)) := by
  obtain ⟨buf, m₀, m, r, h, hp⟩ := openRun_of_accepted allGranted 10 twoFunctionsBlob
    (fun buf m₀ r => decide (r.arena.used ≤ 2^32) && decide (r.numFunctions = 2) &&
      (trace (readerStep allGranted buf) (fun s => [decide (TableAtEnd buf s)]) 10
        (.start m₀)).all id) (by decide +kernel)
  simp only [Bool.and_eq_true, decide_eq_true_eq] at hp
  obtain ⟨⟨hu, hnum⟩, hall⟩ := hp
  refine ⟨buf, m₀, m, r, h, hnum, (function_table_iff allGranted h hu).2 ?_⟩
  intro s hs
  have hmem := hs.mem_trace (f := fun s => [decide (TableAtEnd buf s)]) h.walks
    (List.mem_singleton_self _)
  exact of_decide_eq_true (List.all_eq_true.1 hall _ hmem)

/- The same two records with a SOURCE_FILENAME record between them. -/
def splitFunctionsBlob : List UInt8 :=
  [0xDE, 0xC0, 0x17, 0x0B, 0, 0, 0, 0, 20, 0, 0, 0, 52, 0, 0, 0,
   255, 255, 255, 255, 66, 67, 192, 222, 33, 12, 0, 0, 5, 0, 0, 0,
   67, 14, 32, 40, 128, 96, 0, 6, 5, 225, 48, 228, 8, 4, 3, 0,
   0, 1, 0, 0, 93, 12, 0, 0, 3, 0, 0, 0, 18, 3, 148, 3,
   97, 98, 99, 0, 0, 0, 0, 0]

/-- At the second of its two entries the table shows other bytes. -/
theorem function_table_split : ∃ buf m₀ m r,
    OpenRun allGranted splitFunctionsBlob buf 10 m₀ m r ∧ r.numFunctions = 2 ∧
    r.functionAt 1 = none ∧
    ¬ TableRight r (trace (readerStep allGranted buf) (functionRecordAt buf) 10 (.start m₀))
      (trace (readerStep allGranted buf) (strtabBlobAt buf) 10 (.start m₀)) := by
  obtain ⟨buf, m₀, m, r, h, hp⟩ := openRun_of_accepted allGranted 10 splitFunctionsBlob
    (fun buf m₀ r => decide (r.numFunctions = 2) && decide (r.functionAt 1 = none) &&
      decide (trace (readerStep allGranted buf) (functionRecordAt buf) 10 (.start m₀) =
        [[0, 1, 5, 0, 1, 3, 0], [1, 2, 6, 0, 0, 0, 2]])) (by decide +kernel)
  simp only [Bool.and_eq_true, decide_eq_true_eq] at hp
  obtain ⟨⟨hnum, hnone⟩, hrecs⟩ := hp
  refine ⟨buf, m₀, m, r, h, hnum, hnone, ?_⟩
  rintro ⟨-, hall⟩
  obtain ⟨f, hf, -⟩ := hall 1 [1, 2, 6, 0, 0, 0, 2] (by rw [hrecs]; rfl)
  rw [hnone] at hf
  cases hf

end Lagfx
