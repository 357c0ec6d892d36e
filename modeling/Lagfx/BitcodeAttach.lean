import Lagfx.BitcodeBodies

/-! The walk over MODULE and the function bodies: the k-th FUNCTION_BLOCK goes to the k-th
function with a body, and opening the functions afterwards. -/
namespace Lagfx
open ByteMemory Bits Machine

variable {env : ReaderEnv} {buf : List UInt8} {m m' m'' : AirModule} {s t : Reader}
variable {offs : List Nat} {fns : List (List Nat)} {spans : List BodySpan}

/- What the walk comes to, in order. -/

/-- MODULE is entered, a FUNCTION record, a FUNCTION_BLOCK. -/
inductive ModuleItem where
  | enter
  | function (ops : List Nat)
  | body (sp : BodySpan)
deriving DecidableEq, Repr

/-- The MODULE block is entered next. -/
def entersModule (buf : List UInt8) (s : Reader) : Bool :=
  match s.sub, s.module with
  | none, none =>
    match blockEnter buf rootAbbrevWidth none s.pos with
    | some (blk, _) => decide (blk.blockId = 8)
    | none => false
  | _, _ => false

/-- The FUNCTION_BLOCK that comes next. -/
def bodySpanAt (buf : List UInt8) (s : Reader) : List BodySpan :=
  match moduleNext buf s with
  | some (.subblock 12, blk, p) =>
    match blockSkip buf blk.abbrevWidth p with
    | some stop => [⟨blk.abbrevWidth, p, stop, s.m.blockinfo 12⟩]
    | none => []
  | _ => []

def itemsAt (buf : List UInt8) (s : Reader) : List ModuleItem :=
  (if entersModule buf s = true then [.enter] else []) ++
    (functionRecordAt buf s).map .function ++ (bodySpanAt buf s).map .body

/- Functions with a body, and how many of them there are. -/

def hasBody (ops : List Nat) : Bool := decide (ops.getD 4 0 = 0)

/-- How many of the first `i` functions have a body. -/
def bodyRank (fns : List (List Nat)) (i : Nat) : Nat := (fns.take i).countP hasBody

/-- The FUNCTION_BLOCK of function `i`: if it has a body, the one with its rank. -/
def bodyOf (fns : List (List Nat)) (spans : List BodySpan) (i : Nat) : Option BodySpan :=
  match fns[i]? with
  | none => none
  | some ops => if hasBody ops = true then spans[bodyRank fns i]? else none

def AirFunction.body (f : AirFunction) : Nat × Nat := (f.bodyOffset, f.bodyLength)

def bodyBits : Option BodySpan → Nat × Nat
  | none => (0, 0)
  | some sp => (sp.start, sp.stop-sp.start)

theorem bodyRank_succ {i : Nat} {ops : List Nat} (h : fns[i]? = some ops) :
    bodyRank fns (i+1) = bodyRank fns i+(if hasBody ops = true then 1 else 0) := by
  rw [bodyRank, List.take_add_one, h, Option.toList_some, List.countP_append,
    List.countP_singleton, ← bodyRank]

theorem bodyRank_mono {i j : Nat} (h : i ≤ j) : bodyRank fns i ≤ bodyRank fns j :=
  (List.take_sublist_take_left h).countP_le

theorem bodyRank_lt {i j : Nat} {ops : List Nat} (h : fns[i]? = some ops)
    (hb : hasBody ops = true) (hij : i < j) : bodyRank fns i < bodyRank fns j := by
  have hsucc := bodyRank_succ h
  rw [if_pos hb] at hsucc
  have hmono : bodyRank fns (i+1) ≤ bodyRank fns j := bodyRank_mono hij
  omega

/-- Two functions with a body and the same rank are one. -/
theorem bodyRank_inj {i j : Nat} {ops ops' : List Nat} (h : fns[i]? = some ops)
    (hb : hasBody ops = true) (h' : fns[j]? = some ops') (hb' : hasBody ops' = true)
    (hr : bodyRank fns i = bodyRank fns j) : i = j := by
  rcases Nat.lt_trichotomy i j with hlt | heq | hlt
  · have := bodyRank_lt h hb hlt
    omega
  · exact heq
  · have := bodyRank_lt h' hb' hlt
    omega

/-- No function has a body in between. -/
theorem bodyRank_skip {i n : Nat} (hin : i ≤ n)
    (h : ∀ j ops, i ≤ j → j < n → fns[j]? = some ops → hasBody ops = false) :
    bodyRank fns n = bodyRank fns i := by
  induction n, hin using Nat.le_induction with
  | base => rfl
  | succ n hin ih =>
    rw [← ih fun j ops hj hjn => h j ops hj (by omega)]
    cases hops : fns[n]? with
    | none =>
      have hlen := List.getElem?_eq_none_iff.1 hops
      rw [bodyRank, bodyRank, List.take_of_length_le hlen, List.take_of_length_le (by omega)]
    | some ops =>
      rw [bodyRank_succ hops, h n ops hin (by omega) hops]
      rfl

/-- Every rank below the number of bodies is that of a function. -/
theorem exists_bodyRank {k n : Nat} (h : k < bodyRank fns n) :
    ∃ i ops, fns[i]? = some ops ∧ hasBody ops = true ∧ bodyRank fns i = k := by
  induction n with
  | zero => cases h
  | succ n ih =>
    by_cases hk : k < bodyRank fns n
    · exact ih hk
    · cases hops : fns[n]? with
      | none =>
        have hlen := List.getElem?_eq_none_iff.1 hops
        rw [bodyRank, List.take_of_length_le (by omega)] at h
        rw [bodyRank, List.take_of_length_le hlen] at hk
        exact absurd h hk
      | some ops =>
        have hsucc := bodyRank_succ hops
        split_ifs at hsucc with hb
        · exact ⟨n, ops, hops, hb, by omega⟩
        · omega

/- What becomes of the bits of a function. -/

/-- The function structs that are there keep their bits, and bytes stay as they are. -/
structure SameBodies (m m' : AirModule) : Prop where
  used : m.arena.used ≤ m'.arena.used
  bitstream : m'.bitstreamOffset = m.bitstreamOffset
  bytes : m'.arena.used ≤ 2^32 → ∀ o bs, o < m.arena.used →
    m.arena.cells o = some (.bytes bs) → m'.arena.cells o = some (.bytes bs)
  bodies : m'.arena.used ≤ 2^32 → ∀ o f, o < m.arena.used →
    m.arena.cells o = some (.function f) →
    ∃ f', m'.arena.cells o = some (.function f') ∧ f'.body = f.body

theorem SameBodies.trans (h : SameBodies m m') (h' : SameBodies m' m'') : SameBodies m m'' where
  used := Nat.le_trans h.used h'.used
  bitstream := h'.bitstream.trans h.bitstream
  bytes hu o bs ho hb := h'.bytes hu o bs (Nat.lt_of_lt_of_le ho h.used)
    (h.bytes (Nat.le_trans h'.used hu) o bs ho hb)
  bodies hu o f ho hf := by
    obtain ⟨f', hf', hb⟩ := h.bodies (Nat.le_trans h'.used hu) o f ho hf
    obtain ⟨f'', hf'', hb'⟩ := h'.bodies hu o f' (Nat.lt_of_lt_of_le ho h.used) hf'
    exact ⟨f'', hf'', hb'.trans hb⟩

theorem ModuleKept.sameBodies (h : ModuleKept m m') : SameBodies m m' :=
  ⟨h.used, h.bitstream, fun hu o bs ho hb => by rw [h.below hu o ho, hb],
    fun hu o f ho hf => ⟨f, by rw [h.below hu o ho, hf], rfl⟩⟩

theorem storeFunction_sameBodies (m : AirModule) (i : Nat) {g : AirFunction → AirFunction}
    (hg : ∀ f, (g f).body = f.body) : SameBodies m (m.storeFunction i g) := by
  have hsame := storeFunction_same m i g
  refine ⟨by rw [hsame.used], hsame.bitstream, fun _ o bs _ hb => storeFunction_bytes m i g hb,
    fun _ o f _ hf => ?_⟩
  rcases storeFunction_cases m i g with hc | ⟨f', hf', hc⟩
  · exact ⟨f, by rw [hc, hf], rfl⟩
  · by_cases heq : o = m.functionSlot i
    · rw [heq, hf'] at hf
      cases hf
      exact ⟨g f, by rw [hc, heq, Function.update_self], hg f⟩
    · exact ⟨f, by rw [hc, Function.update_of_ne heq, hf], rfl⟩

theorem rename_sameBodies (m : AirModule) (i k : Nat) :
    SameBodies m (m.storeFunction i fun f => { f with nameOffset := k }) :=
  storeFunction_sameBodies m i fun _ => rfl

theorem resolveNames_sameBodies {strtabLen left i : Nat}
    (h : resolveNames env strtabLen left i m = some m') : SameBodies m m' := by
  induction left generalizing i m with
  | zero => cases h; exact (ModuleKept.refl _).sameBodies
  | succ left ih =>
    obtain ⟨m₁, k, hk, hrest⟩ := resolveNames_succ h
    exact (hk.sameBodies.trans (rename_sameBodies m₁ i k)).trans (ih hrest)

theorem clearNames_sameBodies (left i : Nat) (m : AirModule) :
    SameBodies m (clearNames left i m) := by
  induction left generalizing i m with
  | zero => exact (ModuleKept.refl m).sameBodies
  | succ left ih => exact (rename_sameBodies m i 0).trans (ih ..)

theorem strtabPass_sameBodies (h : strtabPass env m = some m') : SameBodies m m' := by
  rw [strtabPass] at h
  split_ifs at h
  · exact (derive_kept m).sameBodies.trans (resolveNames_sameBodies h)
  · cases h
    exact clearNames_sameBodies ..

theorem finishOpen_sameBodies {r : AirModule} (h : finishOpen env m = .ok r) : SameBodies m r := by
  obtain ⟨m₁, hpass, hk⟩ := finishOpen_kept h
  exact (strtabPass_sameBodies hpass).trans hk.sameBodies

theorem innerRecord_sameBodies (env : ReaderEnv) (m : AirModule) (r : BsRecord) (inner : Inner) :
    (inner.record env m r).All fun m' _ => SameBodies m m' := by
  by_cases hstr : inner = .strtab
  · subst hstr
    have hstrtab : (strtabRecord env m r).All fun m' _ => SameBodies m m' := by
      rw [strtabRecord]
      split
      · rename_i b bs _
        have hk := intern_kept env m (bs.length+1) (c := .bytes (b::bs)) fun f hc => by cases hc
        exact all_oom_or ⟨hk.used, hk.bitstream, hk.sameBodies.bytes, hk.sameBodies.bodies⟩
      · exact (ModuleKept.refl m).sameBodies
    exact hstrtab.map _ fun _ _ h => h
  · have hkeeps := innerRecord_keeps env m r hstr
    cases hrec : inner.record env m r with
    | go m' i => rw [hrec] at hkeeps; exact hkeeps.sameBodies
    | leave m' i => rw [hrec] at hkeeps; exact hkeeps.sameBodies
    | oom => trivial

theorem subCase_sameBodies {w : SubWalk} (h : SubCase env buf s t w) : SameBodies s.m t.m := by
  cases h with
  | go r blk p m i hnext hrec ht =>
    have hall := innerRecord_sameBodies env s.m r w.inner
    rw [hrec] at hall
    rw [ht]
    exact hall
  | leave r blk p q m i hnext hrec ht =>
    have hall := innerRecord_sameBodies env s.m r w.inner
    rw [hrec] at hall
    rw [ht]
    exact hall.trans (innerClose_kept m i).sameBodies
  | define hno blk p ht => rw [ht]; exact (innerDefine_kept ..).sameBodies
  | stay hno blk p ht => rw [ht]; exact (ModuleKept.refl _).sameBodies
  | close hno p ht => rw [ht]; exact (innerClose_kept ..).sameBodies

/- One iteration. -/

/-- The next function that gets a body stays the same, or MODULE is left. -/
def SameNext (s t : Reader) : Prop :=
  ∀ w', t.module = some w' → ∃ w, s.module = some w ∧ w'.nextBodyFn = w.nextBodyFn

/-- What an iteration does to the functions and their bits. -/
inductive Attaching (env : ReaderEnv) (buf : List UInt8) (s t : Reader) : Prop
  | body (w : ModuleWalk) (blk : BsBlock) (stop : Nat) (hw : s.module = some w)
    (hat : itemsAt buf s = [.body ⟨blk.abbrevWidth, s.pos, stop, s.m.blockinfo 12⟩])
    (hstop : s.pos < stop)
    (ht : t.m = (attachBody env s.m w.nextBodyFn s.pos stop).1 ∧
      t.module = some ⟨blk, (attachBody env s.m w.nextBodyFn s.pos stop).2⟩)
  | enter (blk : BsBlock) (hat : itemsAt buf s = [.enter]) (hm : t.m = s.m)
    (ht : t.module = some ⟨blk, 0⟩)
  | function (ops : List Nat) (hat : itemsAt buf s = [.function ops])
    (hlen : offOff+3 ≤ ops.length) (hm : functionRecord env s.m ops = some t.m)
    (ht : SameNext s t)
  | other (hat : itemsAt buf s = []) (hb : SameBodies s.m t.m) (ht : SameNext s t)

theorem itemsAt_sub {w : SubWalk} (h : s.sub = some w) : itemsAt buf s = [] := by
  simp only [itemsAt, entersModule, functionRecordAt, bodySpanAt, moduleNext, h]
  rfl

theorem itemsAt_module {w : ModuleWalk} (hsub : s.sub = none) (hw : s.module = some w) :
    itemsAt buf s = match blockNextRecord buf w.blk s.pos with
      | some (.record r, _, _) =>
        if r.code = 8 ∧ offOff+3 ≤ r.ops.length then [.function r.ops] else []
      | some (.subblock 12, blk, p) =>
        match blockSkip buf blk.abbrevWidth p with
        | some stop => [.body ⟨blk.abbrevWidth, p, stop, s.m.blockinfo 12⟩]
        | none => []
      | _ => [] := by
  simp only [itemsAt, entersModule, functionRecordAt, bodySpanAt, moduleNext, hsub, hw,
    Bool.false_eq_true, if_false, List.nil_append]
  cases blockNextRecord buf w.blk s.pos with
  | none => rfl
  | some next =>
    obtain ⟨ev, blk, p⟩ := next
    cases ev with
    | record r =>
      simp only [List.map_nil, List.append_nil]
      split_ifs
      · rfl
      · rfl
    | subblock id =>
      simp only [List.map_nil, List.nil_append]
      split
      · rename_i heq
        cases heq
        simp only
        cases blockSkip buf blk.abbrevWidth p with
        | none => rfl
        | some stop => rfl
      · rename_i hne
        split
        · rename_i heq
          cases heq
        · rename_i id' blk' p' heq
          cases heq
          exact absurd rfl (hne _ _)
        · rfl
    | stop => rfl
    | define => rfl

theorem SameNext.of_eq (h : t.module = s.module) : SameNext s t :=
  fun w' hw => ⟨w', by rw [← h, hw], rfl⟩

theorem SameNext.of_none (h : t.module = none) : SameNext s t :=
  fun w' hw => by rw [h] at hw; cases hw

theorem SameNext.of_blk {w : ModuleWalk} {blk : BsBlock} (hw : s.module = some w)
    (h : t.module = some ⟨blk, w.nextBodyFn⟩) : SameNext s t :=
  fun w' hw' => by rw [h] at hw'; cases hw'; exact ⟨w, hw, rfl⟩

theorem moduleStep_attaching {w : ModuleWalk} (hsub : s.sub = none) (hw : s.module = some w)
    (h : moduleStep env buf s w = .inl t) : Attaching env buf s t := by
  have hitems : itemsAt buf s = _ := itemsAt_module hsub hw
  have hself : SameBodies s.m s.m := (ModuleKept.refl _).sameBodies
  have bail : ∀ {w : ModuleWalk} {p : Nat}, itemsAt buf s = [] → bailModule s.m w p = .inl t →
      Attaching env buf s t := by
    intro w p hat hb
    rw [bailModule] at hb
    split_ifs at hb
    cases hb
    exact .other hat hself (.of_none rfl)
  simp only [moduleStep] at h
  by_cases hin : w.blk.endPos ≤ s.pos
  · have hstop : blockNextRecord buf w.blk s.pos = some (.stop, w.blk, s.pos) := by
      rw [blockNextRecord, if_pos hin]
    rw [if_pos hin] at h
    rw [hstop] at hitems
    cases h
    exact .other hitems hself (.of_none rfl)
  rw [if_neg hin] at h
  cases hnext : blockNextRecord buf w.blk s.pos with
  | none =>
    rw [hnext] at h hitems
    exact bail hitems h
  | some next =>
    obtain ⟨ev, blk, p⟩ := next
    have htakes := nextRecord_takes (by omega) hnext
    rw [hnext] at h hitems
    cases ev with
    | stop =>
      cases h
      exact .other hitems hself (.of_none rfl)
    | define =>
      cases h
      exact .other hitems hself (.of_blk hw rfl)
    | record r =>
      simp only at h hitems
      cases hr : moduleRecord env s.m r with
      | none => rw [hr] at h; cases h
      | some m =>
        rw [hr] at h
        cases h
        rcases moduleRecord_effect hr with ⟨hcode, hlen, hf⟩ | ⟨hno, hk⟩
        · rw [if_pos ⟨hcode, hlen⟩] at hitems
          exact .function r.ops hitems hlen hf (.of_blk hw rfl)
        · rw [if_neg hno] at hitems
          exact .other hitems hk.sameBodies (.of_blk hw rfl)
    | subblock id =>
      cases htakes with
      | item hev => exact absurd rfl (hev id)
      | sub _ hcode =>
        simp only at h
        by_cases hwalked : id ∈ walkedBlocks
        · have hnil : itemsAt buf s = [] := by
            rw [hitems]
            split
            · rename_i heq; cases heq
            · rename_i heq
              cases heq
              exact absurd hwalked (by decide)
            · rfl
          rw [if_pos hwalked, enterSub] at h
          split at h
          · exact bail hnil h
          · split at h
            · cases h
            · rename_i m inner ho
              cases h
              exact .other hnil (openInner_kept ho).sameBodies (.of_blk hw rfl)
        · rw [if_neg hwalked, skipSub] at h
          simp only at h
          cases hskip : blockSkip buf w.blk.abbrevWidth s.pos with
          | none =>
            rw [hskip] at h
            refine bail ?_ h
            rw [hitems]
            split
            · rename_i heq; cases heq
            · rename_i heq
              cases heq
              rw [hskip]
            · rfl
          | some stop =>
            rw [hskip] at h
            by_cases hid : id = 12
            · subst hid
              simp only [if_true] at h
              cases h
              simp only [hskip] at hitems
              exact .body w _ stop hw hitems (blockSkip_takes hskip).1 ⟨rfl, rfl⟩
            · simp only [if_neg hid] at h
              cases h
              refine .other ?_ hself (.of_blk hw rfl)
              rw [hitems]
              split
              · rename_i heq; cases heq
              · rename_i heq
                cases heq
                exact absurd rfl hid
              · rfl

theorem rootStep_attaching (hsub : s.sub = none) (hmod : s.module = none)
    (h : rootStep buf s = .inl t) : Attaching env buf s t := by
  have hself : SameBodies s.m s.m := (ModuleKept.refl _).sameBodies
  have hitems : itemsAt buf s = if entersModule buf s = true then [.enter] else [] := by
    simp only [itemsAt, functionRecordAt, bodySpanAt, moduleNext, hsub, hmod, List.map_nil,
      List.append_nil]
  have henters : entersModule buf s = match blockEnter buf rootAbbrevWidth none s.pos with
      | some (blk, _) => decide (blk.blockId = 8)
      | none => false := by
    simp only [entersModule, hsub, hmod]
  simp only [rootStep] at h
  split_ifs at h
  split at h
  · cases h
  · split_ifs at h
    split at h
    · cases h
    · rename_i blk first henter
      rw [henter] at henters
      simp only at henters
      split_ifs at h with hstr hmodule
      · cases h
        refine .other ?_ hself (.of_none rfl)
        rw [hitems, henters, hstr]
        rfl
      · cases h
        refine .enter blk ?_ rfl rfl
        rw [hitems, henters, decide_eq_true hmodule]
        rfl
      · split at h
        · cases h
        · cases h
          refine .other ?_ hself (.of_none rfl)
          rw [hitems, henters, decide_eq_false hmodule]
          rfl

theorem readerStep_attaching (h : readerStep env buf s = .inl t) : Attaching env buf s t := by
  cases hsub : s.sub with
  | some w =>
    rw [readerStep, hsub] at h
    have hcase := subStep_cases h
    refine .other (itemsAt_sub hsub) (subCase_sameBodies hcase) (.of_eq ?_)
    cases hcase with
    | go r blk p m i hnext hrec ht => rw [ht]
    | leave r blk p q m i hnext hrec ht => rw [ht]
    | define hno blk p ht => rw [ht]
    | stay hno blk p ht => rw [ht]
    | close hno p ht => rw [ht]
  | none =>
    cases hmod : s.module with
    | some w =>
      rw [readerStep, hsub, hmod] at h
      exact moduleStep_attaching hsub hmod h
    | none =>
      rw [readerStep, hsub, hmod] at h
      exact rootStep_attaching hsub hmod h

/- A FUNCTION_BLOCK is attached. -/

/-- The first `spans.length` functions with a body have their bits, the others have none. -/
structure HaveBodies (offs : List Nat) (fns : List (List Nat)) (spans : List BodySpan)
    (m : AirModule) : Prop where
  table : FnTable Recorded m offs fns
  bodies : ∀ i o, offs[i]? = some o →
    ∃ f, m.arena.cells o = some (.function f) ∧ f.body = bodyBits (bodyOf fns spans i)

/-- In MODULE the next function is behind those that have a body already. -/
structure Attached (offs : List Nat) (fns : List (List Nat)) (spans : List BodySpan)
    (s : Reader) : Prop where
  have_bodies : HaveBodies offs fns spans s.m
  next : ∀ w, s.module = some w → w.nextBodyFn ≤ fns.length ∧
    bodyRank fns w.nextBodyFn = spans.length

theorem bodyOf_append {i : Nat} {ops : List Nat} (h : fns[i]? = some ops)
    (hb : hasBody ops = true) (hr : bodyRank fns i = spans.length) (sp : BodySpan) (j : Nat) :
    bodyOf fns (spans ++ [sp]) j = if j = i then some sp else bodyOf fns spans j := by
  by_cases hj : j = i
  · subst hj
    rw [if_pos rfl, bodyOf, h]
    simp only [if_pos hb]
    rw [hr, List.getElem?_concat_length]
  · rw [if_neg hj, bodyOf, bodyOf]
    cases hops : fns[j]? with
    | none => rfl
    | some ops' =>
      simp only
      split_ifs with hb'
      · have hne : bodyRank fns j ≠ spans.length :=
          fun heq => hj (bodyRank_inj hops hb' h hb (heq.trans hr.symm))
        rcases Nat.lt_or_ge (bodyRank fns j) spans.length with hlt | hge
        · rw [List.getElem?_append_left hlt]
        · rw [List.getElem?_eq_none (by rw [List.length_append, List.length_singleton]; omega),
            List.getElem?_eq_none hge]
      · rfl

theorem skipProtos_spec (env : ReaderEnv) (m : AirModule) (fuel next : Nat)
    (h : m.numFunctions ≤ fuel+next) : next ≤ skipProtos env m fuel next ∧
    (∀ j, next ≤ j → j < skipProtos env m fuel next →
      j < m.numFunctions ∧ (m.loadFunction env j).isProto = true) ∧
    (skipProtos env m fuel next < m.numFunctions →
      (m.loadFunction env (skipProtos env m fuel next)).isProto = false) := by
  induction fuel generalizing next with
  | zero =>
    rw [skipProtos]
    exact ⟨Nat.le_refl _, fun j hj hlt => absurd hlt (by omega), fun hlt => absurd hlt (by omega)⟩
  | succ fuel ih =>
    rw [skipProtos]
    by_cases hskip : next < m.numFunctions ∧ (m.loadFunction env next).isProto = true
    · rw [if_pos hskip]
      obtain ⟨hle, hall, hend⟩ := ih (next+1) (by omega)
      refine ⟨by omega, fun j hj hlt => ?_, hend⟩
      by_cases hjn : j = next
      · rw [hjn]
        exact hskip
      · exact hall j (by omega) hlt
    · rw [if_neg hskip]
      refine ⟨Nat.le_refl _, fun j hj hlt => absurd hlt (by omega), fun hlt => ?_⟩
      rw [not_and, Bool.not_eq_true] at hskip
      exact hskip hlt

/-- Function `i` of a contiguous table. -/
theorem HaveBodies.function (h : HaveBodies offs fns spans m) (hc : Contiguous offs) {i o : Nat}
    {ops : List Nat} (ho : offs[i]? = some o) (hops : fns[i]? = some ops) :
    ∃ f, m.functionAt i = some f ∧ f.Declares ops ∧ f.body = bodyBits (bodyOf fns spans i) := by
  obtain ⟨f, hf, hr⟩ := h.table.carries i o ops ho hops
  obtain ⟨f', hf', hb⟩ := h.bodies i o ho
  rw [hf] at hf'
  cases hf'
  exact ⟨f, functionAt_iff.2 (by rw [h.table.slot hc ho, hf]), hr.1, hb⟩

theorem AirFunction.Declares.proto {f : AirFunction} {ops : List Nat} (h : f.Declares ops) :
    f.isProto = !hasBody ops := by
  rw [h.isProto, hasBody, decide_not]

/-- As long as a function with a body has none, the next one gets it. -/
theorem HaveBodies.attach (env : ReaderEnv) (h : HaveBodies offs fns spans m) (hc : Contiguous offs) {next : Nat}
    (hrank : bodyRank fns next = spans.length)
    (hroom : spans.length < bodyRank fns fns.length) (sp : BodySpan) :
    HaveBodies offs fns (spans ++ [sp]) (attachBody env m next sp.start sp.stop).1 ∧
      (attachBody env m next sp.start sp.stop).2 ≤ fns.length ∧
      bodyRank fns (attachBody env m next sp.start sp.stop).2 = spans.length+1 := by
  have hnum : (deriveTablePtrs m).numFunctions = fns.length := h.table.num.trans h.table.len
  have hd : HaveBodies offs fns spans (deriveTablePtrs m) :=
    ⟨⟨h.table.1, h.table.2, h.table.3, h.table.4, h.table.5, h.table.6, h.table.7⟩, h.bodies⟩
  have hfn : ∀ j, j < fns.length → ∃ o ops f, offs[j]? = some o ∧ fns[j]? = some ops ∧
      (deriveTablePtrs m).functionAt j = some f ∧ f.isProto = !hasBody ops := by
    intro j hj
    have hjo : j < offs.length := by rw [h.table.len]; exact hj
    have ho : offs[j]? = some offs[j] := List.getElem?_eq_getElem hjo
    have hops : fns[j]? = some fns[j] := List.getElem?_eq_getElem hj
    obtain ⟨f, hf, hdec, -⟩ := hd.function hc ho hops
    exact ⟨_, _, f, ho, hops, hf, hdec.proto⟩
  obtain ⟨hle, hbetween, hend⟩ := skipProtos_spec env (deriveTablePtrs m)
    (deriveTablePtrs m).numFunctions next (by omega)
  simp only [attachBody]
  generalize skipProtos env (deriveTablePtrs m) (deriveTablePtrs m).numFunctions next = n at *
  have hskipped : bodyRank fns n = spans.length := by
    rw [← hrank]
    refine bodyRank_skip hle fun j ops hj hjn hops => ?_
    obtain ⟨hlt, hproto⟩ := hbetween j hj hjn
    obtain ⟨o, ops', f, -, hops', hf, hp⟩ := hfn j (by omega)
    rw [hops] at hops'
    cases hops'
    rw [AirModule.loadFunction, hf, Option.getD_some, hp] at hproto
    simpa using hproto
  have hn : n < fns.length := by
    rcases Nat.lt_or_ge n fns.length with hlt | hge
    · exact hlt
    · have hmono : bodyRank fns fns.length ≤ bodyRank fns n := bodyRank_mono hge
      omega
  obtain ⟨o, ops, f, ho, hops, hf, hp⟩ := hfn n hn
  have hbody : hasBody ops = true := by
    have hproto := hend (by omega)
    rw [AirModule.loadFunction, hf, Option.getD_some, hp] at hproto
    simpa using hproto
  rw [if_pos (by omega)]
  obtain ⟨p, hptr, hgen⟩ := derive_live h.table (List.ne_nil_of_mem (List.mem_of_getElem? ho))
  have hcells := storeFunction_live hptr hgen hf
    fun f => { f with bodyOffset := sp.start, bodyLength := sp.stop-sp.start }
  rw [hd.table.slot hc ho] at hcells
  have hsucc := bodyRank_succ hops
  rw [if_pos hbody, hskipped] at hsucc
  refine ⟨⟨hd.table.storeFunction n fun f ops hr => ⟨⟨hr.1.1, hr.1.2, hr.1.3, hr.1.4, hr.1.5, hr.1.6⟩,
    hr.2⟩, fun j o' ho' => ?_⟩, hn, hsucc⟩
  rw [bodyOf_append hops hbody hskipped, hcells]
  by_cases hj : j = n
  · subst hj
    rw [ho] at ho'
    cases ho'
    exact ⟨_, Function.update_self .., by rw [if_pos rfl]; rfl⟩
  · have hne : o' ≠ o := by
      intro heq
      have h₁ := hc j o' ho'
      have h₂ := hc n o ho
      rw [sizeofAirFunction] at h₁ h₂
      omega
    obtain ⟨f', hf', hb⟩ := hd.bodies j o' ho'
    exact ⟨f', by rw [Function.update_of_ne hne, hf'], by rw [if_neg hj, hb]⟩

/- Whole runs. -/

def ModuleItem.record? : ModuleItem → Option (List Nat)
  | .function ops => some ops
  | _ => none

theorem functionRecordAt_items (buf : List UInt8) (s : Reader) :
    functionRecordAt buf s = (itemsAt buf s).filterMap ModuleItem.record? := by
  have hfn : ∀ l : List (List Nat), (l.map ModuleItem.function).filterMap ModuleItem.record? = l := by
    intro l
    rw [List.filterMap_map]
    exact List.filterMap_some
  have hbody : ∀ l : List BodySpan, (l.map ModuleItem.body).filterMap ModuleItem.record? = [] := by
    intro l
    rw [List.filterMap_map, List.filterMap_eq_nil_iff]
    exact fun _ _ => rfl
  rw [itemsAt, List.filterMap_append, List.filterMap_append, hfn, hbody, List.append_nil]
  split_ifs
  · rfl
  · rfl

theorem offsetAt_nil (h : functionRecordAt buf s = []) : offsetAt buf s = [] := by
  rw [offsetAt, h]
  rfl

/-- The bodies stay while functions only get in at the end of the table. -/
theorem HaveBodies.same (h : HaveBodies offs fns spans s.m) (he : Effect env buf s m')
    (hf : functionRecordAt buf s = []) (hb : SameBodies s.m m') (hu : m'.arena.used ≤ 2^32) :
    HaveBodies offs fns spans m' := by
  have ht := h.table.effect he hu
  rw [offsetAt_nil hf, hf, List.append_nil, List.append_nil] at ht
  refine ⟨ht, fun i o ho => ?_⟩
  obtain ⟨f, hf', hbits⟩ := h.bodies i o ho
  have hin := (h.table.inside o (List.mem_of_getElem? ho)).2
  rw [sizeofAirFunction] at hin
  obtain ⟨f', hcell, hsame⟩ := hb.bodies hu o f (by omega) hf'
  exact ⟨f', hcell, hsame.trans hbits⟩

theorem bodyOf_nil (fns : List (List Nat)) (i : Nat) : bodyOf fns [] i = none := by
  rw [bodyOf]
  split
  · rfl
  · split_ifs
    · rfl
    · rfl

/-- A FUNCTION record before all bodies. -/
theorem HaveBodies.add (h : HaveBodies offs fns [] m) {ops : List Nat}
    (hlen : offOff+3 ≤ ops.length) (hm : functionRecord env m ops = some m')
    (hu : m'.arena.used ≤ 2^32) :
    HaveBodies (offs ++ [align8 m.arena.used]) (fns ++ [ops]) [] m' := by
  refine ⟨h.table.add hlen hm hu (recorded_self ops), fun i o ho => ?_⟩
  obtain ⟨-, -, hcells, -, -⟩ := functionRecord_cells hlen hm hu
  rw [bodyOf_nil, hcells]
  rcases Nat.lt_trichotomy i offs.length with hi | hi | hi
  · rw [List.getElem?_append_left hi] at ho
    obtain ⟨f, hf, hb⟩ := h.bodies i o ho
    have hin := (h.table.inside o (List.mem_of_getElem? ho)).2
    have hal := align8_le m.arena.used
    rw [sizeofAirFunction] at hin
    rw [bodyOf_nil] at hb
    exact ⟨f, by rw [Function.update_of_ne (by omega), hf], hb⟩
  · rw [hi, List.getElem?_concat_length] at ho
    cases ho
    exact ⟨_, Function.update_self .., rfl⟩
  · rw [List.getElem?_eq_none (by rw [List.length_append]; exact hi)] at ho
    cases ho

theorem blockEnter_code {width pos : Nat} {info : Option Blockinfo} {r : BsBlock × Nat}
    (h : blockEnter buf width info pos = some r) : ∃ p, readBits buf width pos = some (1, p) := by
  simp only [blockEnter, Option.bind_eq_bind] at h
  obtain ⟨⟨code, p⟩, h₁, h⟩ := Option.bind_eq_some_iff.1 h
  simp only at h
  split_ifs at h with hcode
  exact ⟨p, by rw [h₁, not_not.1 hcode]⟩

theorem finished_items (h : readerStep env buf s = .inr (.finished m)) : itemsAt buf s = [] := by
  have hf := (readerStep_finished h).2.1
  have hb : bodySpanAt buf s = [] := by
    rw [bodySpanAt]
    split
    · rename_i blk p hnext
      rw [(finished_next h hnext).2 (by decide)]
    · rfl
  have he : entersModule buf s = false := by
    rw [entersModule]
    split
    · rename_i hsub hmod
      cases henter : blockEnter buf rootAbbrevWidth none s.pos with
      | none => rfl
      | some r =>
        obtain ⟨blk, first⟩ := r
        obtain ⟨p, hcode⟩ := blockEnter_code henter
        have hm := (readBits_moves hcode).1
        have hlt : s.pos < 8*buf.length := Nat.lt_of_lt_of_le hm.1 hm.2
        simp only [readerStep, hsub, hmod, rootStep, if_neg (Nat.not_le.2 hlt), hcode, henter] at h
        refine decide_eq_false fun hid => ?_
        rw [if_neg (by simp), if_neg (by rw [hid]; decide), if_pos hid] at h
        cases h
    · rfl
  rw [itemsAt, he, hf, hb]
  rfl

/-- From a point of the walk on: MODULE is entered at most once, and then the functions `fs`
are followed by the bodies `ss`, of which there are not too many. -/
theorem attached_run {n : Nat} (pre : List ModuleItem) (fs : List (List Nat)) (ss : List BodySpan)
    (h : Attached offs fns spans s)
    (hpre : pre = [] ∨ pre = [.enter] ∧ fns = [] ∧ spans = []) (hfs : spans = [] ∨ fs = [])
    (htrace : trace (readerStep env buf) (itemsAt buf) n s =
      pre ++ (fs.map .function ++ ss.map .body))
    (henough : (spans ++ ss).length ≤ bodyRank (fns ++ fs) (fns ++ fs).length)
    (hc : Contiguous (offs ++ trace (readerStep env buf) (offsetAt buf) n s))
    (hrun : run (readerStep env buf) n s = .inr (.finished m')) (hu : m'.arena.used ≤ 2^32) :
    HaveBodies (offs ++ trace (readerStep env buf) (offsetAt buf) n s) (fns ++ fs) (spans ++ ss)
      m' := by
  induction n generalizing s offs fns spans pre fs ss with
  | zero => cases hrun
  | succ n ih =>
    cases hst : readerStep env buf s with
    | inr r =>
      rw [run_succ_inr hst] at hrun
      cases hrun
      obtain ⟨hm, hf, -⟩ := readerStep_finished hst
      have hnil := finished_items hst
      rw [trace_succ_inr _ hst, hnil] at htrace
      have hparts := (List.append_eq_nil_iff.1 htrace.symm).2
      have hfs0 := List.map_eq_nil_iff.1 (List.append_eq_nil_iff.1 hparts).1
      have hss0 := List.map_eq_nil_iff.1 (List.append_eq_nil_iff.1 hparts).2
      rw [trace_succ_inr _ hst, offsetAt_nil hf, hfs0, hss0, hm]
      simp only [List.append_nil]
      exact h.have_bodies
    | inl t =>
      rw [run_succ_inl hst] at hrun
      have he := readerStep_effect hst
      have htu : t.m.arena.used ≤ 2^32 := Nat.le_trans (run_used_le hrun) hu
      have hfn := functionRecordAt_items buf s
      rw [trace_succ_inl _ hst] at htrace hc ⊢
      cases readerStep_attaching hst with
      | other hat hb ht =>
        rw [hat] at htrace hfn
        rw [offsetAt_nil hfn, List.nil_append] at hc ⊢
        refine ih pre fs ss ⟨h.have_bodies.same he hfn hb htu, fun w' hw' => ?_⟩ hpre hfs htrace henough hc hrun
        obtain ⟨w, hw, hsame⟩ := ht w' hw'
        rw [hsame]
        exact h.next w hw
      | enter blk hat hm ht =>
        rw [hat] at htrace hfn
        rw [offsetAt_nil hfn, List.nil_append] at hc ⊢
        rcases hpre with rfl | ⟨rfl, rfl, rfl⟩
        · cases fs with
          | cons f fs => cases htrace
          | nil =>
            cases ss with
            | cons sp ss => cases htrace
            | nil => cases htrace
        · refine ih [] fs ss ⟨by rw [hm]; exact h.have_bodies, fun w' hw' => ?_⟩ (.inl rfl) hfs
            (List.cons.inj htrace).2 henough hc hrun
          rw [ht] at hw'
          cases hw'
          exact ⟨Nat.le_refl _, rfl⟩
      | function ops hat hlen hm ht =>
        rw [hat] at htrace hfn
        have hfn' : functionRecordAt buf s = [ops] := hfn
        rcases hpre with rfl | ⟨rfl, rfl, rfl⟩
        · cases fs with
          | nil =>
            cases ss with
            | cons sp ss => cases htrace
            | nil => cases htrace
          | cons f fs =>
            have hspans : spans = [] := by
              rcases hfs with hnil | hnil
              · exact hnil
              · cases hnil
            subst hspans
            obtain ⟨hhead, hrest⟩ := List.cons.inj htrace
            cases hhead
            rw [offsetAt, hfn', List.map_singleton, ← List.append_assoc] at hc ⊢
            have hgo := ih [] fs ss ⟨h.have_bodies.add hlen hm htu, fun w' hw' => ?_⟩ (.inl rfl)
              (.inl rfl) hrest (by rw [List.append_assoc]; exact henough) hc hrun
            · rw [List.append_assoc fns] at hgo
              exact hgo
            · obtain ⟨w, hw, hsame⟩ := ht w' hw'
              obtain ⟨hle, hrank⟩ := h.next w hw
              rw [hsame, ← hrank, bodyRank, List.take_append_of_le_length hle, List.length_append]
              exact ⟨by omega, rfl⟩
        · cases htrace
      | body w blk stop hw hat hstop ht =>
        rw [hat] at htrace hfn
        rw [offsetAt_nil hfn, List.nil_append] at hc ⊢
        rcases hpre with rfl | ⟨rfl, rfl, rfl⟩
        · cases fs with
          | cons f fs => cases htrace
          | nil =>
            cases ss with
            | nil => cases htrace
            | cons sp ss =>
              obtain ⟨hhead, hrest⟩ := List.cons.inj htrace
              cases hhead
              rw [List.append_nil] at henough ⊢
              obtain ⟨hbodies, hle, hnext⟩ := h.have_bodies.attach env hc.of_append
                (h.next w hw).2
                (by rw [List.length_append, List.length_cons] at henough; omega)
                ⟨blk.abbrevWidth, s.pos, stop, s.m.blockinfo 12⟩
              have hgo := ih [] [] ss
                ⟨by rw [ht.1]; exact hbodies, fun w' hw' => ?_⟩ (.inl rfl) (.inr rfl) hrest
                (by rw [List.append_assoc, List.append_nil]; exact henough) hc hrun
              · rw [List.append_assoc, List.append_nil] at hgo
                exact hgo
              · rw [ht.2] at hw'
                cases hw'
                exact ⟨hle, by rw [hnext, List.length_append, List.length_singleton]⟩
        · cases htrace

end Lagfx
