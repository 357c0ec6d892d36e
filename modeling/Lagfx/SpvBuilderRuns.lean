import Mathlib.Data.List.Pairwise
import Mathlib.Data.List.Flatten
import Mathlib.Tactic.SplitIfs
import Lagfx.SpvBuilder

/-! The builder encodes what it was given: its streams stand for the instructions that were
not rewound, and the blob splits into them. -/
namespace Lagfx.SpvBuilder
open Runs

theorem Emit.words_length (e : Emit) : e.words.length = e.wordCount := by
  rw [Emit.words, List.length_cons, Emit.wordCount, Nat.add_comm]

theorem Emit.header_fields {e : Emit} (h : e.wordCount < 2^16) :
    e.header/2^16 = e.wordCount ∧ e.header%2^16 = e.opcode%2^16 := by
  rw [Emit.header]
  omega

/-- Instructions that fit their word counts are read back one by one, with 16 bits of their
opcodes. -/
theorem splitInsts_words {es : List Emit} (h : ∀ e ∈ es, e.wordCount < 2^16) (n : Nat)
    (hn : (es.flatMap Emit.words).length ≤ n) :
    splitInsts n (es.flatMap Emit.words) =
      some (es.map fun e => ⟨e.opcode%2^16, e.operands⟩) := by
  induction es generalizing n with
  | nil => cases n <;> rfl
  | cons e es ih =>
    rw [List.forall_mem_cons] at h
    obtain ⟨hcount, hop⟩ := e.header_fields h.1
    have hlen : e.wordCount-1 = e.operands.length := by rw [Emit.wordCount]; omega
    cases n with
    | zero => simp [Emit.words] at hn
    | succ n =>
      have hrest : (es.flatMap Emit.words).length ≤ n := by
        rw [List.flatMap_cons, List.length_append, Emit.words_length, Emit.wordCount] at hn
        omega
      rw [List.flatMap_cons, Emit.words, List.cons_append, splitInsts, hcount, hop, hlen,
        if_neg, List.drop_left, List.take_left, ih h.2 n hrest]
      · rfl
      · rw [Emit.wordCount, List.length_append]
        omega

theorem wordBytes_pack {a b c d : Nat} (ha : a < 256) (hb : b < 256) (hc : c < 256)
    (hd : d < 256) : wordBytes (a+b*256+c*65536+d*16777216) = [a, b, c, d] := by
  rw [wordBytes]
  congr 1
  · omega
  · congr 1
    · omega
    · congr 1
      · omega
      · congr 1
        omega

theorem readChars_pack (s : List UInt8) (hs : ∀ c ∈ s, c ≠ 0) (ws : List Nat) :
    readChars (packChars s++ws) = s.map UInt8.toNat := by
  have hlt : ∀ c : UInt8, c.toNat < 256 := fun c => c.toNat_lt
  have hne : ∀ c ∈ s, c.toNat ≠ 0 := by
    intro c hc h
    exact hs c hc (UInt8.toNat_inj.1 h)
  fun_induction packChars s with
  | case1 a b c d s ih =>
    have ih' := ih (fun x hx => hs x (by simp [hx])) (fun x hx => hne x (by simp [hx]))
    rw [readChars] at ih' ⊢
    rw [List.cons_append, List.flatMap_cons, wordBytes_pack (hlt a) (hlt b) (hlt c) (hlt d)]
    simpa [hne] using ih'
  | case2 a b c =>
    have hw := wordBytes_pack (hlt a) (hlt b) (hlt c) (d := 0) (by decide)
    simp only [Nat.zero_mul, Nat.add_zero] at hw
    simp [readChars, hw, hne]
  | case3 a b =>
    have hw := wordBytes_pack (hlt a) (hlt b) (c := 0) (d := 0) (by decide) (by decide)
    simp only [Nat.zero_mul, Nat.add_zero] at hw
    simp [readChars, hw, hne]
  | case4 a =>
    have hw := wordBytes_pack (hlt a) (b := 0) (c := 0) (d := 0) (by decide) (by decide)
      (by decide)
    simp only [Nat.zero_mul, Nat.add_zero] at hw
    simp [readChars, hw, hne]
  | case5 => simp [readChars, wordBytes]

theorem stringKept (e : Emit) : e.StringKept := by
  cases e with
  | op opcode operands => trivial
  | opString opcode prefixOperands str suffixOperands =>
    rw [Emit.StringKept, Emit.operands, List.append_assoc, List.drop_left]
    exact readChars_pack str.chars str.nonzero suffixOperands

/- The streams that stand for functions. -/

/-- The segments of functions whose code starts at word `m` and whose locals start at `n`. -/
def segsFrom : Nat → Nat → List FnCode → List LocalsSeg
  | _, _, [] => []
  | m, n, f :: fs =>
    ⟨m, n⟩ :: segsFrom (m+(f.insts.flatMap Emit.words).length)
      (n+(f.vars.flatMap Emit.words).length) fs

def instWords (f : FnCode) : List Nat := f.insts.flatMap Emit.words
def varWords (f : FnCode) : List Nat := f.vars.flatMap Emit.words

def FuncsCode.words (c : FuncsCode) : List Nat :=
  c.head.flatMap Emit.words++c.fns.reverse.flatMap instWords

def FuncsCode.locals (c : FuncsCode) : List Nat := c.fns.reverse.flatMap varWords

def FuncsCode.segs (c : FuncsCode) : List LocalsSeg :=
  segsFrom (c.head.flatMap Emit.words).length 0 c.fns.reverse

theorem segsFrom_append (fs gs : List FnCode) : ∀ m n : Nat, segsFrom m n (fs++gs) =
    segsFrom m n fs++segsFrom (m+(fs.flatMap instWords).length)
      (n+(fs.flatMap varWords).length) gs := by
  induction fs with
  | nil => exact fun m n => rfl
  | cons f fs ih =>
    intro m n
    rw [List.cons_append, segsFrom, segsFrom, ih, List.cons_append, List.flatMap_cons,
      List.flatMap_cons, List.length_append, List.length_append, Nat.add_assoc, Nat.add_assoc]
    rfl

theorem segsFrom_length (fs : List FnCode) : ∀ m n : Nat,
    (segsFrom m n fs).length = fs.length := by
  induction fs with
  | nil => exact fun m n => rfl
  | cons f fs ih =>
    intro m n
    rw [segsFrom, List.length_cons, ih, List.length_cons]

theorem segs_length (c : FuncsCode) : c.segs.length = c.fns.length := by
  rw [FuncsCode.segs, segsFrom_length, List.length_reverse]

/-- The splice over the segments of `fs`, when the code before them is `P` and the locals
before them are `Q`. -/
theorem splice_segs (fs : List FnCode) : ∀ (P Q : List Nat) (src : Nat), src ≤ P.length →
    splice (P++fs.flatMap instWords) (Q++fs.flatMap varWords) (segsFrom P.length Q.length fs)
      src = P.drop src++fs.flatMap fun f => varWords f++instWords f := by
  induction fs with
  | nil =>
    intro P Q src _
    rw [segsFrom, splice, List.flatMap_nil, List.flatMap_nil, List.append_nil, List.append_nil]
  | cons f fs ih =>
    intro P Q src hsrc
    have hP : P++(f :: fs).flatMap instWords = (P++instWords f)++fs.flatMap instWords := by
      rw [List.flatMap_cons, List.append_assoc]
    have hQ : Q++(f :: fs).flatMap varWords = (Q++varWords f)++fs.flatMap varWords := by
      rw [List.flatMap_cons, List.append_assoc]
    have hrest := ih (P++instWords f) (Q++varWords f) P.length (by simp)
    rw [List.length_append, List.length_append] at hrest
    have hstop : segStop ((Q++varWords f)++fs.flatMap varWords) (segsFrom
        (P.length+(instWords f).length) (Q.length+(varWords f).length) fs) =
        Q.length+(varWords f).length := by
      cases fs with
      | nil => simp [segsFrom, segStop]
      | cons f' fs => rfl
    have hcode : (((P++instWords f)++fs.flatMap instWords).drop src).take (P.length-src) =
        P.drop src := by
      rw [List.append_assoc, List.drop_append_of_le_length hsrc, List.take_left']
      rw [List.length_drop]
    have hvars : (((Q++varWords f)++fs.flatMap varWords).drop Q.length).take
        (Q.length+(varWords f).length-Q.length) = varWords f := by
      rw [List.append_assoc, List.drop_left, Nat.add_sub_cancel_left, List.take_left]
    have hseg : segsFrom P.length Q.length (f :: fs) = ⟨P.length, Q.length⟩ ::
        segsFrom (P.length+(instWords f).length) (Q.length+(varWords f).length) fs := rfl
    rw [hP, hQ, hseg, splice, hstop, if_neg, hrest, hcode, hvars, List.drop_left,
      List.flatMap_cons, List.append_assoc, List.append_assoc]
    simp only [List.length_append]
    omega

/-- The functions as `finish` writes them. -/
theorem splice_code (c : FuncsCode) :
    splice c.words c.locals c.segs 0 = c.emits.flatMap Emit.words := by
  have h := splice_segs c.fns.reverse (c.head.flatMap Emit.words) [] 0 (Nat.zero_le _)
  rw [List.nil_append, List.drop_zero] at h
  rw [FuncsCode.words, FuncsCode.locals, FuncsCode.segs, FuncsCode.emits, List.flatMap_append,
    List.flatMap_assoc]
  refine h.trans (congrArg _ ?_)
  simp only [List.flatMap_append]
  rfl

/-- Without locals there is nothing to splice. -/
theorem words_of_no_locals {c : FuncsCode} (h : c.locals = [] ∨ c.segs = []) :
    c.emits.flatMap Emit.words = c.words := by
  have hvars : ∀ f ∈ c.fns.reverse, varWords f = [] := by
    intro f hf
    obtain h | h := h
    · exact List.flatMap_eq_nil_iff.1 h f hf
    · have hlen := segs_length c
      rw [h, List.length_nil] at hlen
      rw [List.length_eq_zero_iff.1 hlen.symm] at hf
      simp at hf
  rw [FuncsCode.words, FuncsCode.emits, List.flatMap_append, List.flatMap_assoc]
  congr 1
  rw [List.flatMap_def, List.flatMap_def]
  apply congrArg
  apply List.map_congr_left
  intro f hf
  rw [List.flatMap_append, ← varWords, hvars f hf]
  rfl

/- Each call on the functions, seen in their streams. -/

theorem emit_words (c : FuncsCode) (e : Emit) : (c.emit e).words = c.words++e.words := by
  rw [FuncsCode.emit]
  cases hc : c.fns with
  | nil => simp [FuncsCode.words, hc]
  | cons f fs => simp [FuncsCode.words, hc, instWords]

theorem emit_locals (c : FuncsCode) (e : Emit) : (c.emit e).locals = c.locals := by
  rw [FuncsCode.emit]
  cases hc : c.fns with
  | nil => simp [FuncsCode.locals, hc]
  | cons f fs => simp [FuncsCode.locals, hc, varWords]

theorem emit_segs (c : FuncsCode) (e : Emit) : (c.emit e).segs = c.segs := by
  rw [FuncsCode.emit]
  cases hc : c.fns with
  | nil => simp [FuncsCode.segs, hc, segsFrom]
  | cons f fs => simp [FuncsCode.segs, hc, segsFrom_append, segsFrom]

theorem mark_words (c : FuncsCode) : c.mark.words = c.words := by
  simp [FuncsCode.mark, FuncsCode.words, instWords]

theorem mark_locals (c : FuncsCode) : c.mark.locals = c.locals := by
  simp [FuncsCode.mark, FuncsCode.locals, varWords]

theorem mark_segs (c : FuncsCode) : c.mark.segs = c.segs++[⟨c.words.length, c.locals.length⟩] := by
  simp [FuncsCode.mark, FuncsCode.segs, FuncsCode.words, FuncsCode.locals, segsFrom_append,
    segsFrom]

theorem addVar_words (c : FuncsCode) (e : Emit) : (c.addVar e).words = c.words := by
  rw [FuncsCode.addVar]
  cases hc : c.fns with
  | nil => simp
  | cons f fs => simp [FuncsCode.words, hc, instWords]

theorem addVar_locals {c : FuncsCode} (h : c.segs ≠ []) (e : Emit) :
    (c.addVar e).locals = c.locals++e.words := by
  rw [FuncsCode.addVar]
  cases hc : c.fns with
  | nil => simp [FuncsCode.segs, hc, segsFrom] at h
  | cons f fs => simp [FuncsCode.locals, hc, varWords]

theorem addVar_segs (c : FuncsCode) (e : Emit) : (c.addVar e).segs = c.segs := by
  rw [FuncsCode.addVar]
  cases hc : c.fns with
  | nil => simp
  | cons f fs => simp [FuncsCode.segs, hc, segsFrom_append, segsFrom]

theorem addVar_of_no_segs {c : FuncsCode} (h : c.segs = []) (e : Emit) : c.addVar e = c := by
  have hlen := segs_length c
  rw [h, List.length_nil] at hlen
  rw [FuncsCode.addVar, List.length_eq_zero_iff.1 hlen.symm]

/-- The streams of `c` go on with those of `d`. -/
structure FuncsCode.Extends (d c : FuncsCode) : Prop where
  words : c.words <+: d.words
  segs : c.segs <+: d.segs
  locals : c.locals <+: d.locals

theorem FuncsCode.Extends.refl (c : FuncsCode) : c.Extends c :=
  ⟨List.prefix_rfl, List.prefix_rfl, List.prefix_rfl⟩

theorem FuncsCode.Extends.trans {a b c : FuncsCode} (h : a.Extends b) (h' : b.Extends c) :
    a.Extends c :=
  ⟨h'.words.trans h.words, h'.segs.trans h.segs, h'.locals.trans h.locals⟩

theorem emit_extends (c : FuncsCode) (e : Emit) : (c.emit e).Extends c where
  words := emit_words c e ▸ List.prefix_append _ _
  segs := emit_segs c e ▸ List.prefix_rfl
  locals := emit_locals c e ▸ List.prefix_rfl

theorem mark_extends (c : FuncsCode) : c.mark.Extends c where
  words := mark_words c ▸ List.prefix_rfl
  segs := mark_segs c ▸ List.prefix_append _ _
  locals := mark_locals c ▸ List.prefix_rfl

theorem addVar_extends (c : FuncsCode) (e : Emit) : (c.addVar e).Extends c := by
  by_cases h : c.segs = []
  · rw [addVar_of_no_segs h]
    exact .refl c
  · exact ⟨addVar_words c e ▸ List.prefix_rfl, addVar_segs c e ▸ List.prefix_rfl,
      addVar_locals h e ▸ List.prefix_append _ _⟩

/-- The streams stand for the instructions, and each snapshot for the functions it was taken
of, which the later ones go on from. -/
structure Rep (r : BuilderRun) (a : Emitted) : Prop where
  groups : ∀ s, s ≠ .funcs → r.b.sec s = (a.group s).flatMap Emit.words
  funcs : r.b.sec .funcs = a.code.words
  segs : r.b.segs = a.code.segs
  locals : r.b.locals = a.code.locals
  snaps : r.snaps = a.snaps.map fun c =>
    ⟨⟨c.words.length, c.segs.length, c.locals.length⟩, c.words, c.segs, c.locals⟩
  chain : (a.code :: a.snaps).Pairwise FuncsCode.Extends

theorem rep_start : Rep {} {} where
  groups _ _ := rfl
  funcs := rfl
  segs := rfl
  locals := rfl
  snaps := rfl
  chain := List.pairwise_singleton _ _

/-- The counts stay below 32 bits, and the instruction fits its word count. -/
def StepFits (r : BuilderRun) : BuilderOp → Prop
  | .emit e => e.wordCount < 2^16 ∧ (r.b.sec e.sec).length+e.wordCount < 2^32
  | .allocId => r.b.nextId+1 < 2^32
  | .markLocals => r.b.segs.length < 2^31
  | .emitLocalVar _ _ => r.b.segs ≠ [] → r.b.locals.length+4 < 2^32
  | _ => True

/-- What an instruction that fits does to the streams. -/
theorem Builder.emit_fits {b : Builder} {e : Emit}
    (h : (b.sec e.sec).length+e.wordCount < 2^32) :
    (b.emit e).sec e.sec = b.sec e.sec++e.words ∧ (∀ s, s ≠ e.sec → (b.emit e).sec s = b.sec s) ∧
      (b.emit e).segs = b.segs ∧ (b.emit e).locals = b.locals := by
  rw [Builder.emit, if_pos h]
  exact ⟨Function.update_self _ _ _, fun s hs => Function.update_of_ne hs _ _, rfl, rfl⟩

/-- A chain goes on where only its head grew. -/
theorem chain_grown {c d : FuncsCode} {cs : List FuncsCode}
    (h : (c :: cs).Pairwise FuncsCode.Extends) (hd : d.Extends c) :
    (d :: cs).Pairwise FuncsCode.Extends := by
  rw [List.pairwise_cons] at h ⊢
  exact ⟨fun x hx => hd.trans (h.1 x hx), h.2⟩

theorem Builder.funcsRewind_funcs (b : Builder) (m : FuncsMark) :
    (b.funcsRewind m).sec .funcs = rewound (b.sec .funcs) m.funcsN := by
  simp only [Builder.funcsRewind, Function.update_self]

theorem rewound_prefix {α : Type*} {l l' : List α} (h : l' <+: l) : rewound l l'.length = l' := by
  rw [rewound, if_pos h.length_le]
  exact (List.prefix_iff_eq_take.1 h).symm

/-- A rewind to a snapshot of the chain restores its streams. -/
theorem Rep.rewind {r : BuilderRun} {a : Emitted} (h : Rep r a) {c : FuncsCode}
    (hc : c ∈ a.snaps) :
    (r.b.funcsRewind ⟨c.words.length, c.segs.length, c.locals.length⟩).sec .funcs = c.words ∧
      (r.b.funcsRewind ⟨c.words.length, c.segs.length, c.locals.length⟩).segs = c.segs ∧
      (r.b.funcsRewind ⟨c.words.length, c.segs.length, c.locals.length⟩).locals = c.locals := by
  have hext := (List.pairwise_cons.1 h.chain).1 c hc
  refine ⟨?_, ?_, ?_⟩
  · rw [Builder.funcsRewind_funcs, h.funcs]
    exact rewound_prefix hext.words
  · rw [Builder.funcsRewind, h.segs]
    exact rewound_prefix hext.segs
  · rw [Builder.funcsRewind, h.locals]
    exact rewound_prefix hext.locals

theorem Rep.step {r : BuilderRun} {a : Emitted} (h : Rep r a) (op : BuilderOp)
    (hfits : StepFits r op) : Rep (r.step op) (a.step op) := by
  cases op with
  | emit e =>
    obtain ⟨hself, hother, hsegs, hlocals⟩ := Builder.emit_fits hfits.2
    rw [BuilderRun.step, Emitted.step]
    by_cases hs : e.sec = .funcs
    · rw [if_pos hs]
      rw [hs] at hself hother
      refine ⟨?_, ?_, ?_, ?_, h.snaps, chain_grown h.chain (emit_extends _ _)⟩
      · intro s hne
        exact (hother s hne).trans (h.groups s hne)
      · rw [emit_words, ← h.funcs]
        exact hself
      · exact (hsegs.trans h.segs).trans (emit_segs _ _).symm
      · exact (hlocals.trans h.locals).trans (emit_locals _ _).symm
    · rw [if_neg hs]
      refine ⟨?_, (hother _ (Ne.symm hs)).trans h.funcs, hsegs.trans h.segs,
        hlocals.trans h.locals, h.snaps, h.chain⟩
      intro s hne
      dsimp only
      by_cases hse : s = e.sec
      · subst hse
        rw [Function.update_self, List.flatMap_append, hself, h.groups _ hne,
          List.flatMap_singleton]
      · rw [Function.update_of_ne hse, hother s hse]
        exact h.groups s hne
  | allocId => exact ⟨h.groups, h.funcs, h.segs, h.locals, h.snaps, h.chain⟩
  | markLocals =>
    have hb : r.b.markLocals =
        { r.b with segs := r.b.segs++[⟨(r.b.sec .funcs).length, r.b.locals.length⟩] } :=
      if_pos hfits
    rw [BuilderRun.step, Emitted.step, hb]
    refine ⟨h.groups, h.funcs.trans (mark_words _).symm, ?_,
      h.locals.trans (mark_locals _).symm, h.snaps, chain_grown h.chain (mark_extends _)⟩
    rw [mark_segs, h.segs, h.funcs, h.locals]
  | emitLocalVar ptrTypeId resultId =>
    rw [BuilderRun.step, Emitted.step]
    by_cases hseg : r.b.segs = []
    · have hb : r.b.emitLocalVar ptrTypeId resultId = r.b := if_pos hseg
      rw [hb, addVar_of_no_segs (h.segs.symm.trans hseg)]
      exact h
    · have hb : r.b.emitLocalVar ptrTypeId resultId =
          { r.b with locals := r.b.locals++(localVar ptrTypeId resultId).words } :=
        (if_neg hseg).trans (if_pos (hfits hseg))
      rw [hb]
      refine ⟨h.groups, h.funcs.trans (addVar_words _ _).symm,
        h.segs.trans (addVar_segs _ _).symm, ?_, h.snaps,
        chain_grown h.chain (addVar_extends _ _)⟩
      rw [addVar_locals (h.segs ▸ hseg), h.locals]
  | snapshot =>
    refine ⟨h.groups, h.funcs, h.segs, h.locals, ?_, ?_⟩
    · rw [BuilderRun.step, Emitted.step, List.map_cons, ← h.snaps, Builder.saved,
        Builder.funcsSnapshot, h.funcs, h.segs, h.locals]
    · rw [Emitted.step, List.pairwise_cons]
      refine ⟨?_, h.chain⟩
      intro c hc
      obtain rfl | hc := List.mem_cons.1 hc
      · exact .refl _
      · exact (List.pairwise_cons.1 h.chain).1 c hc
  | rewind k =>
    have hsnaps : r.snaps.drop k = (a.snaps.drop k).map fun c =>
        ⟨⟨c.words.length, c.segs.length, c.locals.length⟩, c.words, c.segs, c.locals⟩ := by
      rw [h.snaps, List.map_drop]
    rw [BuilderRun.step, Emitted.step]
    cases hdrop : a.snaps.drop k with
    | nil =>
      rw [hdrop, List.map_nil] at hsnaps
      rw [hsnaps]
      exact h
    | cons c rest =>
      rw [hdrop, List.map_cons] at hsnaps
      rw [hsnaps]
      have hc : c ∈ a.snaps := List.mem_of_mem_drop (hdrop ▸ List.mem_cons_self)
      obtain ⟨hfuncs, hsegs, hlocals⟩ := h.rewind hc
      refine ⟨?_, hfuncs, hsegs, hlocals, rfl, ?_⟩
      · intro s hne
        have hsec : (r.b.funcsRewind ⟨c.words.length, c.segs.length, c.locals.length⟩).sec s =
            r.b.sec s := Function.update_of_ne hne _ _
        exact hsec.trans (h.groups s hne)
      · have hrest : (c :: rest).Pairwise FuncsCode.Extends := by
          rw [← hdrop]
          exact (List.pairwise_cons.1 h.chain).2.sublist (List.drop_sublist _ _)
        rw [List.pairwise_cons]
        refine ⟨?_, hrest⟩
        intro x hx
        obtain rfl | hx := List.mem_cons.1 hx
        · exact .refl _
        · exact (List.pairwise_cons.1 hrest).1 x hx

theorem run_rep (ops : List BuilderOp) : ∀ (r : BuilderRun) (a : Emitted), Rep r a →
    AllSteps BuilderRun.step StepFits r ops →
      Rep (ops.foldl BuilderRun.step r) (ops.foldl Emitted.step a) := by
  induction ops with
  | nil => exact fun r a h _ => h
  | cons op ops ih => exact fun r a h hfits => ih _ _ (h.step op hfits.1) hfits.2

/-- The words of the blob behind its header. -/
theorem Rep.body {r : BuilderRun} {a : Emitted} (h : Rep r a) :
    r.b.body = a.emits.flatMap Emit.words := by
  have hfuncs : (if r.b.locals.length ≠ 0 ∧ r.b.segs.length ≠ 0 then
      splice (r.b.sec .funcs) r.b.locals r.b.segs 0 else r.b.sec .funcs) =
      a.code.emits.flatMap Emit.words := by
    rw [h.funcs, h.segs, h.locals]
    split_ifs with hsome
    · exact splice_code a.code
    · rw [not_and_or, not_not, not_not, List.length_eq_zero_iff, List.length_eq_zero_iff]
        at hsome
      exact (words_of_no_locals hsome).symm
  rw [Builder.body, hfuncs, Emitted.emits, h.groups .caps (by decide),
    h.groups .preamble (by decide), h.groups .annot (by decide), h.groups .types (by decide)]
  simp only [List.flatMap_append]

/- Every instruction that is kept was emitted, or is a local variable. -/
section kept
variable (P : Emit → Prop)

def FuncsCode.All (c : FuncsCode) : Prop := ∀ e ∈ c.emits, P e

structure Emitted.All (a : Emitted) : Prop where
  groups : ∀ s, ∀ e ∈ a.group s, P e
  code : a.code.All P
  snaps : ∀ c ∈ a.snaps, c.All P

variable {P}

theorem mem_emit {c : FuncsCode} {e x : Emit} (h : x ∈ (c.emit e).emits) :
    x ∈ c.emits ∨ x = e := by
  rw [FuncsCode.emit] at h
  cases hc : c.fns with
  | nil =>
    simp only [hc, FuncsCode.emits, List.reverse_nil, List.flatMap_nil, List.append_nil,
      List.mem_append, List.mem_singleton] at h ⊢
    exact h
  | cons f fs =>
    simp only [hc, FuncsCode.emits, List.reverse_cons, List.flatMap_append,
      List.flatMap_singleton, List.mem_append, List.mem_singleton] at h ⊢
    tauto

theorem mem_addVar {c : FuncsCode} {e x : Emit} (h : x ∈ (c.addVar e).emits) :
    x ∈ c.emits ∨ x = e := by
  rw [FuncsCode.addVar] at h
  cases hc : c.fns with
  | nil =>
    rw [hc] at h
    exact .inl h
  | cons f fs =>
    simp only [hc, FuncsCode.emits, List.reverse_cons, List.flatMap_append,
      List.flatMap_singleton, List.mem_append, List.mem_singleton] at h ⊢
    tauto

theorem mark_emits (c : FuncsCode) : c.mark.emits = c.emits := by
  simp [FuncsCode.mark, FuncsCode.emits]

theorem Emitted.All.step {a : Emitted} (h : a.All P) {op : BuilderOp}
    (hop : ∀ e, op = .emit e → P e) (hvar : ∀ x y, P (localVar x y)) : (a.step op).All P := by
  cases op with
  | emit e =>
    have he := hop e rfl
    rw [Emitted.step]
    split_ifs with hs
    · refine ⟨h.groups, fun x hx => ?_, h.snaps⟩
      obtain hx | rfl := mem_emit hx
      · exact h.code x hx
      · exact he
    · refine ⟨fun s x hx => ?_, h.code, h.snaps⟩
      dsimp only at hx
      by_cases hse : s = e.sec
      · subst hse
        rw [Function.update_self, List.mem_append, List.mem_singleton] at hx
        obtain hx | rfl := hx
        · exact h.groups _ x hx
        · exact he
      · rw [Function.update_of_ne hse] at hx
        exact h.groups s x hx
  | allocId => exact h
  | markLocals =>
    refine ⟨h.groups, fun x hx => ?_, h.snaps⟩
    exact h.code x (mark_emits a.code ▸ hx)
  | emitLocalVar ptrTypeId resultId =>
    refine ⟨h.groups, fun x hx => ?_, h.snaps⟩
    obtain hx | rfl := mem_addVar hx
    · exact h.code x hx
    · exact hvar _ _
  | snapshot =>
    refine ⟨h.groups, h.code, fun c hc => ?_⟩
    obtain rfl | hc := List.mem_cons.1 hc
    · exact h.code
    · exact h.snaps c hc
  | rewind k =>
    rw [Emitted.step]
    cases hdrop : a.snaps.drop k with
    | nil => exact h
    | cons c rest =>
      have hsub : ∀ x ∈ c :: rest, x.All P := fun x hx =>
        h.snaps x (List.mem_of_mem_drop (hdrop ▸ hx))
      exact ⟨h.groups, hsub c List.mem_cons_self, hsub⟩

theorem run_all {ops : List BuilderOp} (hops : ∀ e, .emit e ∈ ops → P e)
    (hvar : ∀ x y, P (localVar x y)) :
    ∀ a : Emitted, a.All P → (ops.foldl Emitted.step a).All P := by
  induction ops with
  | nil => exact fun a h => h
  | cons op ops ih =>
    intro a h
    refine ih (fun e he => hops e (List.mem_cons_of_mem _ he)) _ (h.step ?_ hvar)
    intro e he
    exact hops e (he ▸ List.mem_cons_self)

theorem Emitted.All.emits {a : Emitted} (h : a.All P) : ∀ e ∈ a.emits, P e := by
  intro e he
  simp only [Emitted.emits, List.mem_append] at he
  obtain (((he | he) | he) | he) | he := he
  · exact h.groups _ e he
  · exact h.groups _ e he
  · exact h.groups _ e he
  · exact h.groups _ e he
  · exact h.code e he

end kept

/- What an accepted run shows about its steps. -/

theorem overrun_step {r : BuilderRun} (h : r.b.overrun = true) (op : BuilderOp) :
    (r.step op).b.overrun = true := by
  cases op with
  | emit e =>
    rw [BuilderRun.step, Builder.emit]
    split_ifs
    · exact h
    · rfl
  | allocId => exact h
  | markLocals =>
    rw [BuilderRun.step, Builder.markLocals]
    split_ifs
    · exact h
    · rfl
  | emitLocalVar ptrTypeId resultId =>
    rw [BuilderRun.step, Builder.emitLocalVar]
    split_ifs
    · exact h
    · exact h
    · rfl
  | snapshot => exact h
  | rewind k =>
    rw [BuilderRun.step]
    split
    · exact h
    · exact h

theorem overrun_run (ops : List BuilderOp) : ∀ r : BuilderRun, r.b.overrun = true →
    (ops.foldl BuilderRun.step r).b.overrun = true := by
  induction ops with
  | nil => exact fun r h => h
  | cons op ops ih => exact fun r h => ih _ (overrun_step h op)

/- Ids are given out upwards, and the next one is a word. -/
structure IdsBelow (r : BuilderRun) : Prop where
  next : r.b.nextId < 2^32
  ids : ∀ id ∈ r.ids, id < r.b.nextId

theorem step_nextId {r : BuilderRun} {op : BuilderOp} (h : op ≠ .allocId) :
    (r.step op).b.nextId = r.b.nextId ∧ (r.step op).ids = r.ids := by
  cases op with
  | emit e =>
    rw [BuilderRun.step, Builder.emit]
    split_ifs
    · exact ⟨rfl, rfl⟩
    · exact ⟨rfl, rfl⟩
  | allocId => exact absurd rfl h
  | markLocals =>
    rw [BuilderRun.step, Builder.markLocals]
    split_ifs
    · exact ⟨rfl, rfl⟩
    · exact ⟨rfl, rfl⟩
  | emitLocalVar ptrTypeId resultId =>
    rw [BuilderRun.step, Builder.emitLocalVar]
    split_ifs
    · exact ⟨rfl, rfl⟩
    · exact ⟨rfl, rfl⟩
    · exact ⟨rfl, rfl⟩
  | snapshot => exact ⟨rfl, rfl⟩
  | rewind k =>
    rw [BuilderRun.step]
    split
    · exact ⟨rfl, rfl⟩
    · exact ⟨rfl, rfl⟩

theorem nextId_step {r : BuilderRun} (h : r.b.nextId < 2^32) (op : BuilderOp) :
    (r.step op).b.nextId < 2^32 := by
  by_cases hop : op = .allocId
  · rw [hop]
    exact Nat.mod_lt _ (by decide)
  · rw [(step_nextId hop).1]
    exact h

theorem ids_step {r : BuilderRun} {id : Nat} (h : id ∈ r.ids) (op : BuilderOp) :
    id ∈ (r.step op).ids := by
  by_cases hop : op = .allocId
  · rw [hop]
    exact List.mem_cons_of_mem _ h
  · rw [(step_nextId hop).2]
    exact h

theorem nextId_run (ops : List BuilderOp) : ∀ r : BuilderRun, r.b.nextId < 2^32 →
    (ops.foldl BuilderRun.step r).b.nextId < 2^32 := by
  induction ops with
  | nil => exact fun r h => h
  | cons op ops ih => exact fun r h => ih _ (nextId_step h op)

theorem ids_run (ops : List BuilderOp) : ∀ (r : BuilderRun) (id : Nat), id ∈ r.ids →
    id ∈ (ops.foldl BuilderRun.step r).ids := by
  induction ops with
  | nil => exact fun r id h => h
  | cons op ops ih => exact fun r id h => ih _ id (ids_step h op)

theorem idsBelow_step {r : BuilderRun} (h : IdsBelow r) (op : BuilderOp) (hfits : StepFits r op) :
    IdsBelow (r.step op) := by
  refine ⟨nextId_step h.next op, ?_⟩
  by_cases hop : op = .allocId
  · subst hop
    have hnext : (r.step .allocId).b.nextId = r.b.nextId+1 := Nat.mod_eq_of_lt hfits
    rw [hnext]
    intro id hid
    obtain rfl | hid := List.mem_cons.1 hid
    · exact Nat.lt_succ_self _
    · exact (h.ids id hid).trans (Nat.lt_succ_self _)
  · rw [(step_nextId hop).1, (step_nextId hop).2]
    exact h.ids

theorem idsBelow_run (ops : List BuilderOp) : ∀ r : BuilderRun, IdsBelow r →
    AllSteps BuilderRun.step StepFits r ops → IdsBelow (ops.foldl BuilderRun.step r) := by
  induction ops with
  | nil => exact fun r h _ => h
  | cons op ops ih => exact fun r h hfits => ih _ (idsBelow_step h op hfits.1) hfits.2

/-- Nothing was written outside a buffer. -/
theorem step_fits {r : BuilderRun} {op : BuilderOp} (hrun : (r.step op).b.overrun = false)
    (hcount : ∀ e, op = .emit e → e.wordCount < 2^16)
    (hid : op = .allocId → r.b.nextId+1 < 2^32) : StepFits r op := by
  cases op with
  | emit e =>
    refine ⟨hcount e rfl, ?_⟩
    by_contra hno
    rw [BuilderRun.step, Builder.emit, if_neg hno] at hrun
    cases hrun
  | allocId => exact hid rfl
  | markLocals =>
    by_contra hno
    have hover : r.b.markLocals = { r.b with overrun := true } := if_neg hno
    rw [BuilderRun.step, hover] at hrun
    cases hrun
  | emitLocalVar ptrTypeId resultId =>
    intro hseg
    by_contra hno
    rw [BuilderRun.step, Builder.emitLocalVar, if_neg hseg, if_neg hno] at hrun
    cases hrun
  | snapshot => trivial
  | rewind k => trivial

theorem run_fits (ops : List BuilderOp) : ∀ r : BuilderRun, r.b.nextId < 2^32 →
    (ops.foldl BuilderRun.step r).b.overrun = false →
    (∀ e, .emit e ∈ ops → e.wordCount < 2^16) →
    (∀ id ∈ (ops.foldl BuilderRun.step r).ids,
      id < (ops.foldl BuilderRun.step r).b.nextId) →
    AllSteps BuilderRun.step StepFits r ops := by
  induction ops with
  | nil => exact fun _ _ _ _ _ => trivial
  | cons op ops ih =>
    intro r hnext hrun hcount hids
    refine ⟨step_fits ?_ (fun e he => hcount e (he ▸ List.mem_cons_self)) ?_,
      ih _ (nextId_step hnext op) hrun (fun e he => hcount e (List.mem_cons_of_mem _ he)) hids⟩
    · by_contra hover
      rw [Bool.not_eq_false] at hover
      rw [List.foldl_cons, overrun_run ops _ hover] at hrun
      cases hrun
    · intro hop
      subst hop
      have hid := hids r.b.nextId (ids_run ops _ _ List.mem_cons_self)
      have hlast := nextId_run ops _ (nextId_step hnext .allocId)
      rw [List.foldl_cons] at hid
      omega

/-- A rewind leaves the function stream and the pending locals of its snapshot. -/
def Restores (r : BuilderRun) : BuilderOp → Prop
  | .rewind k => ∀ s ∈ (r.snaps.drop k).head?,
    (r.b.funcsRewind s.mark).sec .funcs = s.funcs ∧ (r.b.funcsRewind s.mark).segs = s.segs ∧
      (r.b.funcsRewind s.mark).locals = s.locals
  | _ => True

theorem Rep.restores {r : BuilderRun} {a : Emitted} (h : Rep r a) (op : BuilderOp) :
    Restores r op := by
  cases op with
  | rewind k =>
    intro s hs
    have hmem : s ∈ r.snaps := List.mem_of_mem_drop (List.mem_of_mem_head? hs)
    rw [h.snaps] at hmem
    obtain ⟨c, hc, rfl⟩ := List.mem_map.1 hmem
    exact h.rewind hc
  | emit e => trivial
  | allocId => trivial
  | markLocals => trivial
  | emitLocalVar ptrTypeId resultId => trivial
  | snapshot => trivial

theorem run_restores (ops : List BuilderOp) : ∀ (r : BuilderRun) (a : Emitted), Rep r a →
    AllSteps BuilderRun.step StepFits r ops → AllSteps BuilderRun.step Restores r ops := by
  induction ops with
  | nil => exact fun _ _ _ _ => trivial
  | cons op ops ih =>
    exact fun r a h hfits => ⟨h.restores op, ih _ _ (h.step op hfits.1) hfits.2⟩

/-- An instruction that fits its word count, at every emit. -/
theorem emits_fit (ops : List BuilderOp) : ∀ r : BuilderRun,
    AllSteps BuilderRun.step StepFits r ops → ∀ e, .emit e ∈ ops → e.wordCount < 2^16 := by
  induction ops with
  | nil => exact fun _ _ _ he => absurd he List.not_mem_nil
  | cons op ops ih =>
    intro r hfits e he
    obtain he | he := List.mem_cons.1 he
    · subst he
      exact hfits.1.1
    · exact ih _ hfits.2 e he

theorem whole_step {r : BuilderRun} (h : r.b.overrun = false) {op : BuilderOp}
    (hfits : StepFits r op) : (r.step op).b.overrun = false := by
  cases op with
  | emit e =>
    rw [BuilderRun.step, Builder.emit, if_pos hfits.2]
    exact h
  | allocId => exact h
  | markLocals =>
    have hroom : r.b.segs.length < 2^31 := hfits
    rw [BuilderRun.step, Builder.markLocals, if_pos hroom]
    exact h
  | emitLocalVar ptrTypeId resultId =>
    rw [BuilderRun.step, Builder.emitLocalVar]
    split_ifs with hseg hroom
    · exact h
    · exact h
    · exact absurd (hfits hseg) hroom
  | snapshot => exact h
  | rewind k =>
    rw [BuilderRun.step]
    split
    · exact h
    · exact h

theorem whole_run (ops : List BuilderOp) : ∀ r : BuilderRun, r.b.overrun = false →
    AllSteps BuilderRun.step StepFits r ops → (ops.foldl BuilderRun.step r).b.overrun = false := by
  induction ops with
  | nil => exact fun r h _ => h
  | cons op ops ih => exact fun r h hfits => ih _ (whole_step h hfits.1) hfits.2

theorem localVar_wordCount (ptrTypeId resultId : Nat) :
    (localVar ptrTypeId resultId).wordCount = 4 := rfl

def builderRun (ops : List BuilderOp) : BuilderRun := ops.foldl BuilderRun.step {}
def emitted (ops : List BuilderOp) : Emitted := ops.foldl Emitted.step {}

/-- The blob splits into what was emitted and not rewound, in its groups and with the locals
at their marks; rewinds restore; the bound is over all ids; and an instruction that is too
long for its word count was not accepted. -/
structure Encodes (ops : List BuilderOp) : Prop where
  whole : (builderRun ops).b.overrun = false
  header : (builderRun ops).b.finish.take 5 =
    [spvMagicWord, spvVersion14, 0, (builderRun ops).b.nextId, 0]
  split : splitInsts ((builderRun ops).b.finish.drop 5).length
    ((builderRun ops).b.finish.drop 5) = some ((emitted ops).emits.map Emit.inst)
  strings : ∀ e ∈ (emitted ops).emits, e.StringKept
  restored : AllSteps BuilderRun.step Restores {} ops
  bound : ∀ id ∈ (builderRun ops).ids, id < (builderRun ops).b.finish.getD 3 0
  refused : ∀ e, .emit e ∈ ops → e.wordCount < 2^16

/-- The body splits into what is left, with 16 bits of each opcode. -/
theorem split_body {ops : List BuilderOp} (hfits : AllSteps BuilderRun.step StepFits {} ops) :
    splitInsts (builderRun ops).b.body.length (builderRun ops).b.body =
      some ((emitted ops).emits.map fun e => ⟨e.opcode%2^16, e.operands⟩) := by
  have hrep := run_rep ops {} {} rep_start hfits
  have hstart : Emitted.All (fun e => e.wordCount < 2^16) {} :=
    ⟨by simp, by simp [FuncsCode.All, FuncsCode.emits], by simp⟩
  have hsmall := (run_all (emits_fit ops {} hfits)
    (fun x y => by rw [localVar_wordCount]; decide) {} hstart).emits
  have hbody : (builderRun ops).b.body = (emitted ops).emits.flatMap Emit.words := hrep.body
  rw [hbody]
  exact splitInsts_words hsmall _ le_rfl

theorem finish_body (ops : List BuilderOp) :
    (builderRun ops).b.finish.drop 5 = (builderRun ops).b.body := rfl

theorem encodes_iff (ops : List BuilderOp) :
    Encodes ops ↔ AllSteps BuilderRun.step StepFits {} ops ∧
      ∀ e ∈ (emitted ops).emits, e.opcode < 2^16 := by
  constructor
  · intro h
    have hfits := run_fits ops {} (by decide) h.whole h.refused h.bound
    refine ⟨hfits, ?_⟩
    have heq := h.split
    rw [finish_body, split_body hfits, Option.some.injEq] at heq
    intro e he
    have hinst := List.map_inj_left.1 heq e he
    have hop : e.opcode%2^16 = e.opcode := congrArg Inst.opcode hinst
    omega
  · intro h
    obtain ⟨hfits, hops⟩ := h
    have hbelow := idsBelow_run ops {} ⟨by decide, by simp⟩ hfits
    refine ⟨whole_run ops {} rfl hfits, rfl, ?_, fun e _ => stringKept e,
      run_restores ops {} {} rep_start hfits, hbelow.ids, emits_fit ops {} hfits⟩
    -- the opcodes are 16 bits, so that all of them is given back
    rw [finish_body, split_body hfits, Option.some.injEq]
    apply List.map_congr_left
    intro e he
    rw [Emit.inst, Nat.mod_eq_of_lt (hops e he)]

/-- A single instruction of the functions, shorter than the stream can be. -/
theorem builderRun_single {e : Emit} (hsec : e.sec = .funcs) (hfit : e.wordCount < 2^32) :
    (builderRun [.emit e]).b.overrun = false ∧ (builderRun [.emit e]).b.body = e.words := by
  have hemit : (builderRun [.emit e]).b =
      { ({} : Builder) with sec := Function.update (fun _ => []) e.sec ([]++e.words) } :=
    if_pos (by simpa using hfit)
  rw [hemit, hsec]
  exact ⟨rfl, by simp [Builder.body]⟩

def longSwitch : Emit := .op 251 (List.replicate 65535 0)

/-- An OpSwitch of 65535 operands is accepted; its word count is shifted out of the header, and
the blob does not split. -/
theorem long_switch_lost :
    (builderRun [.emit longSwitch]).b.overrun = false ∧
      (∀ n, splitInsts (n+1) ((builderRun [.emit longSwitch]).b.finish.drop 5) = none) ∧
      ¬ Encodes [.emit longSwitch] := by
  have hcount : longSwitch.wordCount = 65536 := by
    rw [longSwitch, Emit.wordCount, Emit.operands, List.length_replicate]
  obtain ⟨hwhole, hwords⟩ := builderRun_single (e := longSwitch) rfl (by rw [hcount]; decide)
  have hheader : longSwitch.header = 251 := by
    rw [Emit.header, hcount]
    rfl
  refine ⟨hwhole, fun n => ?_, fun h => ?_⟩
  · rw [finish_body, hwords, Emit.words, hheader, splitInsts, if_pos (.inl rfl)]
  · have hlong := h.refused _ List.mem_cons_self
    rw [hcount] at hlong
    exact absurd hlong (by decide)

end Lagfx.SpvBuilder
