import Lagfx.SignatureTransform
import Mathlib.Data.List.TakeWhile

/-! Kernel-dialect modules, and the module the signature transform makes of one: what it
does to each function and block. The emit pass writes exactly that module. -/
namespace Lagfx.Spirv

/-- Opcodes of declarations. -/
def Op.inGlobals : Op → Bool
  | .function | .functionParameter | .functionEnd | .functionCall | .load | .store | .accessChain
  | .compositeExtract | .bitcast | .phi | .label | .ret | .returnValue | .lifetimeStart
  | .lifetimeStop => false
  | op => !op.isTerminator

/-- Opcodes of blocks, after the label. -/
def Op.inBlock : Op → Bool
  | .name | .memoryModel | .entryPoint | .executionMode | .capability | .constant
  | .specConstantOp | .function | .functionParameter | .functionEnd | .decorate
  | .memberDecorate | .label => false
  | op => !op.isType

/-- Operand counts the grammar fixes. -/
def Insn.arity (i : Insn) : Bool :=
  match i.op with
  | .typeVoid | .label | .returnValue => i.args.length == 1
  | .undef | .functionParameter | .lifetimeStart | .lifetimeStop => i.args.length == 2
  | .typeInt | .typePointer | .typeArray | .bitcast => i.args.length == 3
  | .specConstantOp => !isSpecBitcast i || i.args.length == 4
  | .constant | .functionCall | .load => 3 ≤ i.args.length
  | .store => 2 ≤ i.args.length
  | .typeStruct => 1 ≤ i.args.length
  | _ => true

/-- Layout of a function: its header, its blocks with one terminator at the end, local
variables initialised by declarations, and declared types that match. -/
structure Fn.Laid (g : Grammar) (m : Module) (f : Fn) : Prop where
  header : ∀ i ∈ f.header, i.op = .functionParameter ∨ i.op.isLine ∧ i.result g = none
  insns : ∀ i ∈ f.insns, i.op.inBlock
  ends : ∀ b ∈ f.blocks, b.insns.getLast?.map (·.op.isTerminator) = some true
  inner : ∀ b ∈ f.blocks, ∀ i ∈ b.insns.dropLast, i.op.isTerminator = false
  locals : ∀ i ∈ f.insns, i.op = .var → ∀ x ∈ i.uses g, x ∈ results g m.globals
  trail : ∀ i ∈ f.trail, i.op.isLine ∧ i.result g = none
  type : ⟨.typeFunction, f.fnType :: f.retType :: f.paramTypes⟩ ∈ m.globals
  types : ∀ t ∈ f.retType :: f.paramTypes, t ∈ results g m.globals

def Module.isPointerType (m : Module) (t : Nat) : Bool :=
  m.globals.any fun i => i.op == .typePointer && i.arg 0 == t

/-- The type a pointer type points to. -/
def Module.pointee (m : Module) (t : Nat) : Option Nat :=
  (m.globals.find? fun i => i.op == .typePointer && i.arg 0 == t).map (·.arg 2)

def Module.elementType (m : Module) (t : Nat) : Option Nat :=
  (m.globals.find? fun i => i.op == .typeArray && i.arg 0 == t).map (·.arg 1)

/-- Result type of the instruction that defines `x`. -/
def Module.typeOf (g : Grammar) (m : Module) (x : Nat) : Option Nat :=
  (m.code.find? fun i => i.result g == some x).map (·.arg 0)

/-- A cast from a pointer to an array to a pointer to its element. -/
def Module.CastsToElement (g : Grammar) (m : Module) (i : Insn) : Prop :=
  (m.pointee (i.arg 0)).isSome ∧
    ((m.typeOf g (i.arg 2)).bind m.pointee).bind m.elementType = m.pointee (i.arg 0)

instance (g : Grammar) (m : Module) (i : Insn) : Decidable (m.CastsToElement g i) :=
  inferInstanceAs (Decidable (_ ∧ _))

/-- Well-formed kernel-dialect modules, within SPIR-V's limit on ids. -/
structure Module.Kernel (g : Grammar) (m : Module) : Prop where
  ids : m.ValidIds g
  globals : ∀ i ∈ m.globals, i.op.inGlobals
  memoryModel : (m.globals.filter (·.op == .memoryModel)).length = 1
  fns : ∀ f ∈ m.fns, f.Laid g m
  arity : ∀ i ∈ m.code, i.arity
  uints : ∀ i ∈ m.globals, i.op = .constant → ⟨.typeInt, [i.arg 0, 32, 0]⟩ ∈ m.globals →
    i.args.length = 3
  casts : ∀ f ∈ m.fns, ∀ i ∈ f.insns, i.op = .bitcast → m.isPointerType (i.arg 0) →
    m.CastsToElement g i
  limit : m.bound ≤ 4194303
  stream : ∀ i ∈ m.code, i.op.Canonical ∧ i.words < 65536

/-- A function with a body that returns a value and is never called. -/
structure Module.EntryFn (m : Module) (f : Fn) : Prop where
  mem : f ∈ m.fns
  body : f.blocks ≠ []
  value : ∀ i ∈ f.insns, i.op ≠ .ret
  uncalled : ∀ h ∈ m.fns, ∀ i ∈ h.insns, i.op = .functionCall → i.arg 2 ≠ f.id

namespace EmitCtx
variable (c : EmitCtx)

/-- Outside the entry function. -/
def rewriteInsn (i : Insn) : List Insn :=
  if isSpecBitcast i then [⟨.undef, [i.arg 0, i.arg 1]⟩]
  else if c.isPointerCast i then
    if c.scan.lifetimeOperandIds.contains (i.arg 1) then [] else [c.asAccessChain i]
  else if drops false i then [] else [i]

/-- In a block of the entry function, `next` the next fresh id. -/
def rewriteAt (next : Nat) (i : Insn) : List Insn :=
  if i.op = .returnValue then c.returnStores next (i.arg 0) ++ [⟨.ret, []⟩]
  else c.rewriteInsn i

/-- What the pass passes over before it emits the loads. -/
def isEarly (i : Insn) : Bool := i.op == .var || drops false i || c.isPointerCast i

def rewriteFn (h : Fn) : Fn :=
  { h with blocks := h.blocks.map fun b => { b with insns := b.insns.flatMap c.rewriteInsn } }

def rewriteBlock (next : Nat) (b : Block) : Block :=
  { b with insns := b.insns.flatMap (c.rewriteAt next) }

def nextAfter (next : Nat) (b : Block) : Nat :=
  if b.insns.any (·.op == .returnValue) then c.afterReturn next else next

def rewriteBlocks : Nat → List Block → List Block
  | _, [] => []
  | next, b :: bs => c.rewriteBlock next b :: rewriteBlocks (c.nextAfter next b) bs

def nextAfterAll : Nat → List Block → Nat
  | next, [] => next
  | next, b :: bs => nextAfterAll (c.nextAfter next b) bs

/-- Block the loads are spliced into. -/
def rewriteFirst (next : Nat) (loads : List Insn) (b : Block) : Block :=
  { b with
    insns := (b.insns.takeWhile c.isEarly).flatMap (c.rewriteAt next) ++
      (loads ++ (b.insns.dropWhile c.isEarly).flatMap (c.rewriteAt next)) }

def rewriteBody (next : Nat) (loads : List Insn) : List Block → List Block
  | [] => []
  | b :: bs => c.rewriteFirst next loads b :: c.rewriteBlocks (c.nextAfter next b) bs

end EmitCtx

/-- Line information among the parameters. -/
def Fn.headerLines (f : Fn) : List Insn := f.header.filter (fun i => !isParam i)

/- Line information in the header makes the pass emit the loads there, before the first
   label. -/
def EmitCtx.rewriteEntry (c : EmitCtx) (next : Nat) (f : Fn) : Fn where
  retType := c.ids.voidId
  id := f.id
  control := 0
  fnType := c.ids.voidFnTypeId
  header := if f.headerLines.isEmpty then [] else c.loads ++ f.headerLines
  blocks := c.rewriteBody next (if f.headerLines.isEmpty then c.loads else []) f.blocks
  trail := f.trail

def EmitCtx.rewriteFns (c : EmitCtx) (next : Nat) (fns : List Fn) : List Fn :=
  fns.map fun h => if h.id = c.scan.fnId then c.rewriteEntry next h else c.rewriteFn h

/-- The module the pass writes for `m` with entry function `f`. -/
def EmitCtx.rewriteModule (c : EmitCtx) (next : Nat) (m : Module) (f : Fn) : Module where
  bound := c.nextAfterAll next f.blocks
  globals := (emitAll c { next := next } m.globals).2 ++ c.declarations
  fns := c.rewriteFns next m.fns

theorem emitAll_append (c : EmitCtx) (st : EmitState) (a b : List Insn) :
    emitAll c st (a ++ b) =
      ((emitAll c (emitAll c st a).1 b).1, (emitAll c st a).2 ++ (emitAll c (emitAll c st a).1 b).2) := by
  induction a generalizing st with
  | nil => simp [emitAll]
  | cons i is ih => simp [emitAll, ih]

/-- Past the declarations, outside the entry function. -/
def between (loads : Bool) (next : Nat) : EmitState := ⟨true, true, true, false, loads, next⟩

/-- Inside the entry function. -/
def within (loads : Bool) (next : Nat) : EmitState := ⟨true, true, true, true, loads, next⟩

section Steps
variable {c : EmitCtx} {i : Insn} {e : Bool} {n : Nat}

theorem Op.isLine_cases {op : Op} (h : op.isLine = true) : op = .other 8 ∨ op = .other 317 := by
  cases op <;> simp_all [Op.isLine, Op.code]

theorem isFunctionOf_ne (h : i.op ≠ .function) (id k : Nat) : isFunctionOf id k i = false := by
  simp [isFunctionOf, h]

theorem EmitCtx.rewriteInsn_keep (hs : i.op ≠ .specConstantOp) (hb : i.op ≠ .bitcast)
    (hd : drops false i = false) : c.rewriteInsn i = [i] := by
  simp [EmitCtx.rewriteInsn, isSpecBitcast, EmitCtx.isPointerCast, hs, hb, hd]

theorem EmitCtx.rewriteInsn_line (h : i.op.isLine = true) : c.rewriteInsn i = [i] := by
  rcases Op.isLine_cases h with h | h <;>
    exact EmitCtx.rewriteInsn_keep (by simp [h]) (by simp [h]) (by simp [drops, h])

theorem emitInsn_between (h : isFunctionOf c.scan.fnId 4 i = false) :
    emitInsn c (between e n) i = (between e n, c.rewriteInsn i) := by
  simp only [emitInsn, EmitCtx.rewriteInsn, between, emitRest, h]
  split_ifs <;> simp_all

theorem emitAll_between {is : List Insn}
    (h : ∀ i ∈ is, isFunctionOf c.scan.fnId 4 i = false) :
    emitAll c (between e n) is = (between e n, is.flatMap c.rewriteInsn) := by
  induction is with
  | nil => rfl
  | cons i is ih =>
    simp only [emitAll, emitInsn_between (h i List.mem_cons_self),
      ih fun j hj => h j (List.mem_cons_of_mem i hj), List.flatMap_cons]

theorem Op.inBlock_ne {op op' : Op} (h : op.inBlock = true) (h' : op'.inBlock = false) :
    op ≠ op' := by
  intro he
  rw [he, h'] at h
  exact Bool.noConfusion h

theorem drops_eq (h : i.op ≠ .functionParameter) (t : Bool) : drops t i = drops false i := by
  simp only [drops]
  split <;> simp_all

/-- An instruction of the entry once the loads are out. -/
theorem emitInsn_within (hb : i.op.inBlock = true) (ha : i.arity = true) :
    emitInsn c (within true n) i =
      (within true (if i.op = .returnValue then c.afterReturn n else n), c.rewriteAt n i) := by
  have hfn : i.op ≠ .function := Op.inBlock_ne hb rfl
  have hpa : i.op ≠ .functionParameter := Op.inBlock_ne hb rfl
  have hf := isFunctionOf_ne hfn c.scan.fnId 4
  have hp := drops_eq hpa true
  have hl : i.op ≠ .label := Op.inBlock_ne hb rfl
  have he : i.op ≠ .functionEnd := Op.inBlock_ne hb rfl
  simp only [emitInsn, within, emitRest, emitInTarget, hf, hp, hl, he]
  by_cases hr : i.op = .returnValue
  · have h1 : i.args.length = 1 := by simpa [Insn.arity, hr] using ha
    simp [EmitCtx.rewriteAt, isSpecBitcast, EmitCtx.isPointerCast, drops, hr, h1]
  · simp only [EmitCtx.rewriteAt, EmitCtx.rewriteInsn, hr]
    split_ifs <;> simp_all

/-- Passed over with the loads still to come. -/
theorem emitInsn_early (hb : i.op.inBlock = true) (hi : c.isEarly i = true) :
    emitInsn c (within false n) i = (within false n, c.rewriteAt n i) := by
  have hfn : i.op ≠ .function := Op.inBlock_ne hb rfl
  have hpa : i.op ≠ .functionParameter := Op.inBlock_ne hb rfl
  have hf := isFunctionOf_ne hfn c.scan.fnId 4
  have hp := drops_eq hpa true
  have hl : i.op ≠ .label := Op.inBlock_ne hb rfl
  have he : i.op ≠ .functionEnd := Op.inBlock_ne hb rfl
  have hr : i.op ≠ .returnValue := by
    intro hr
    simp [EmitCtx.isEarly, drops, EmitCtx.isPointerCast, hr] at hi
  simp only [emitInsn, within, emitRest, emitInTarget, hf, hp, hl, he, EmitCtx.rewriteAt,
    EmitCtx.rewriteInsn, hr]
  simp only [EmitCtx.isEarly] at hi
  split_ifs <;> simp_all

/-- The instruction the loads are put before. -/
theorem emitInsn_splice (hb : i.op.inBlock = true) (ha : i.arity = true)
    (hi : c.isEarly i = false) :
    emitInsn c (within false n) i =
      (within true (if i.op = .returnValue then c.afterReturn n else n),
        c.loads ++ c.rewriteAt n i) := by
  have hfn : i.op ≠ .function := Op.inBlock_ne hb rfl
  have hpa : i.op ≠ .functionParameter := Op.inBlock_ne hb rfl
  have hsp : i.op ≠ .specConstantOp := Op.inBlock_ne hb rfl
  have hf := isFunctionOf_ne hfn c.scan.fnId 4
  have hp := drops_eq hpa true
  have hl : i.op ≠ .label := Op.inBlock_ne hb rfl
  have he : i.op ≠ .functionEnd := Op.inBlock_ne hb rfl
  simp only [EmitCtx.isEarly, Bool.or_eq_false_iff] at hi
  simp only [emitInsn, within, emitRest, emitInTarget, hf, hp, hl, he]
  by_cases hr : i.op = .returnValue
  · have h1 : i.args.length = 1 := by simpa [Insn.arity, hr] using ha
    simp [EmitCtx.rewriteAt, isSpecBitcast, EmitCtx.isPointerCast, drops, hr, h1]
  · have hv : i.op ≠ .var := by simpa using hi.1.1
    simp [EmitCtx.rewriteAt, EmitCtx.rewriteInsn, isSpecBitcast, hr, hi.1.2, hi.2, hv, hsp]

theorem emitAll_within {is : List Insn} (hb : ∀ i ∈ is, i.op.inBlock = true)
    (ha : ∀ i ∈ is, i.arity = true) (hi : ∀ i ∈ is.dropLast, i.op.isTerminator = false) (l : Nat) :
    emitAll c (within true n) is =
      (within true (c.nextAfter n ⟨l, is⟩), is.flatMap (c.rewriteAt n)) := by
  induction is with
  | nil => rfl
  | cons i is ih =>
    have hb' := fun j hj => hb j (List.mem_cons_of_mem i hj)
    have ha' := fun j hj => ha j (List.mem_cons_of_mem i hj)
    simp only [emitAll, emitInsn_within (hb i List.mem_cons_self) (ha i List.mem_cons_self),
      List.flatMap_cons]
    cases is with
    | nil => simp [emitAll, EmitCtx.nextAfter]
    | cons j js =>
      have hr : i.op ≠ .returnValue := by
        intro hr
        simpa [hr, Op.isTerminator, Op.code] using hi i (by simp)
      rw [if_neg hr, ih hb' ha' fun k hk => hi k (by simp [hk])]
      simp [EmitCtx.nextAfter, hr]

theorem emitAll_early {is : List Insn} (hb : ∀ i ∈ is, i.op.inBlock = true)
    (hi : ∀ i ∈ is, c.isEarly i = true) :
    emitAll c (within false n) is = (within false n, is.flatMap (c.rewriteAt n)) := by
  induction is with
  | nil => rfl
  | cons i is ih =>
    simp only [emitAll, emitInsn_early (hb i List.mem_cons_self) (hi i List.mem_cons_self),
      ih (fun j hj => hb j (List.mem_cons_of_mem i hj))
        (fun j hj => hi j (List.mem_cons_of_mem i hj)), List.flatMap_cons]

theorem EmitCtx.not_early (h : i.op.isTerminator = true) : c.isEarly i = false := by
  cases hop : i.op <;>
    simp_all [Op.isTerminator, Op.code, EmitCtx.isEarly, drops, EmitCtx.isPointerCast]

/-- Instructions of a block, up to the splice and from it on. -/
theorem EmitCtx.split_early {is : List Insn} (h : is.getLast?.map (·.op.isTerminator) = some true) :
    ∃ a j b, is = a ++ j :: b ∧ is.takeWhile c.isEarly = a ∧ is.dropWhile c.isEarly = j :: b ∧
      (∀ i ∈ a, c.isEarly i = true) ∧ c.isEarly j = false := by
  obtain ⟨t, ht, htt⟩ := Option.map_eq_some_iff.mp h
  have hmem : t ∈ is := List.mem_of_getLast? ht
  cases hd : is.dropWhile c.isEarly with
  | nil =>
    have hall := List.dropWhile_eq_nil_iff.mp hd t hmem
    rw [EmitCtx.not_early htt] at hall
    exact absurd hall (by simp)
  | cons j b =>
    refine ⟨_, j, b, ?_, rfl, rfl, fun i hi => List.mem_takeWhile_imp hi, ?_⟩
    · rw [← hd, List.takeWhile_append_dropWhile]
    · simpa [hd] using List.head_dropWhile_not c.isEarly (l := is) (by simp [hd])

/-- First block, with the loads still to come. -/
theorem emitAll_first {b : Block} (hb : ∀ i ∈ b.insns, i.op.inBlock = true)
    (ha : ∀ i ∈ b.insns, i.arity = true)
    (he : b.insns.getLast?.map (·.op.isTerminator) = some true)
    (hi : ∀ i ∈ b.insns.dropLast, i.op.isTerminator = false) :
    emitAll c (within false n) b.insns =
      (within true (c.nextAfter n b), (c.rewriteFirst n c.loads b).insns) := by
  obtain ⟨a, j, t, hsplit, htake, hdrop, hearly, hj⟩ := EmitCtx.split_early (c := c) he
  have hnr : ∀ i ∈ a, i.op ≠ .returnValue := by
    intro i hia hr
    have := hearly i hia
    simp [EmitCtx.isEarly, drops, EmitCtx.isPointerCast, hr] at this
  have hany : b.insns.any (·.op == .returnValue) = (j :: t).any (·.op == .returnValue) := by
    rw [hsplit, List.any_append]
    have : a.any (·.op == .returnValue) = false := by simpa using hnr
    rw [this, Bool.false_or]
  have hnext : c.nextAfter n b = c.nextAfter n ⟨b.label, j :: t⟩ := by
    simp only [EmitCtx.nextAfter, hany]
  simp only [EmitCtx.rewriteFirst, htake, hdrop, hnext]
  rw [hsplit] at hb ha hi
  rw [hsplit, emitAll_append, emitAll_early (fun i hi => hb i (by simp [hi])) hearly]
  have hrest := emitAll_within (c := c) (n := n)
    (fun i (hi : i ∈ j :: t) => hb i (by simp_all))
    (fun i hi => ha i (by simp_all)) (fun i hm => hi i (by
      rw [List.dropLast_append_of_ne_nil (by simp)]
      exact List.mem_append_right a hm)) b.label
  have hjb : j.op.inBlock = true := hb j (by simp)
  have hja : j.arity = true := ha j (by simp)
  simp only [emitAll, emitInsn_within hjb hja, emitInsn_splice hjb hja hj] at hrest ⊢
  simp only [Prod.mk.injEq] at hrest ⊢
  refine ⟨hrest.1, ?_⟩
  rw [← hrest.2]
  simp

theorem emitInsn_label (l : Nat) :
    emitInsn c (within e n) ⟨.label, [l]⟩ = (within e n, [⟨.label, [l]⟩]) := by
  simp [emitInsn, within, emitRest, emitInTarget, isSpecBitcast, EmitCtx.isPointerCast,
    isFunctionOf, drops, Op.isType, Op.code]

theorem emitInsn_end :
    emitInsn c (within e n) ⟨.functionEnd, []⟩ = (between e n, [⟨.functionEnd, []⟩]) := by
  simp [emitInsn, within, between, emitRest, isSpecBitcast, EmitCtx.isPointerCast,
    isFunctionOf, drops, Op.isType, Op.code]

theorem emitInsn_head {f : Fn} (hid : f.id = c.scan.fnId) :
    emitInsn c (between e n) f.head =
      (within false n, [⟨.function, [c.ids.voidId, f.id, 0, c.ids.voidFnTypeId]⟩]) := by
  simp [emitInsn, within, between, emitRest, isSpecBitcast, EmitCtx.isPointerCast,
    isFunctionOf, Fn.head, Insn.arg, hid]

theorem EmitCtx.rewriteFirst_nil (b : Block) : c.rewriteFirst n [] b = c.rewriteBlock n b := by
  simp only [EmitCtx.rewriteFirst, EmitCtx.rewriteBlock, List.nil_append, ← List.flatMap_append,
    List.takeWhile_append_dropWhile]

theorem EmitCtx.rewriteBody_nil (bs : List Block) :
    c.rewriteBody n [] bs = c.rewriteBlocks n bs := by
  cases bs with
  | nil => rfl
  | cons b bs => simp only [EmitCtx.rewriteBody, EmitCtx.rewriteBlocks, EmitCtx.rewriteFirst_nil]

end Steps

/-- A line instruction of the header, before and after the loads. -/
theorem emitInsn_line {c : EmitCtx} {i : Insn} (h : i.op.isLine = true) (e : Bool) (n : Nat) :
    emitInsn c (within e n) i = (within true n, (if e then [] else c.loads) ++ [i]) := by
  rcases Op.isLine_cases h with h | h <;> cases e <;>
    simp [emitInsn, within, emitRest, emitInTarget, isSpecBitcast, EmitCtx.isPointerCast,
      isFunctionOf, drops, Op.isType, Op.code, h]

theorem emitInsn_param {c : EmitCtx} {i : Insn} (h : i.op = .functionParameter) (e : Bool)
    (n : Nat) : emitInsn c (within e n) i = (within e n, []) := by
  simp [emitInsn, within, emitRest, emitInTarget, isSpecBitcast, EmitCtx.isPointerCast,
    isFunctionOf, drops, Op.isType, Op.code, h]

/-- The entry's header: parameters go, line information brings the loads with it. -/
theorem emitAll_header {c : EmitCtx} {is : List Insn}
    (h : ∀ i ∈ is, i.op = .functionParameter ∨ i.op.isLine = true) (e : Bool) (n : Nat) :
    emitAll c (within e n) is =
      (within (e || !(is.filter (fun i => !isParam i)).isEmpty) n,
        (if e || (is.filter (fun i => !isParam i)).isEmpty then [] else c.loads) ++
          is.filter (fun i => !isParam i)) := by
  induction is generalizing e with
  | nil => simp [emitAll]
  | cons i is ih =>
    have ih' := fun e => ih (fun j hj => h j (List.mem_cons_of_mem i hj)) e
    cases h i List.mem_cons_self with
    | inl hp =>
      have hpi : isParam i = true := by simp [isParam, hp]
      simp [emitAll, emitInsn_param hp, ih', hpi]
    | inr hl =>
      have hpi : isParam i = false := by
        rcases Op.isLine_cases hl with hl | hl <;> simp [isParam, hl]
      cases e <;> simp [emitAll, emitInsn_line hl, ih', hpi]

section Functions
variable {g : Grammar} {m : Module} {c : EmitCtx} {f : Fn}

/-- What the layout of a function says of its blocks. -/
def Block.Laid (b : Block) : Prop :=
  (∀ i ∈ b.insns, i.op.inBlock = true ∧ i.arity = true) ∧
    b.insns.getLast?.map (·.op.isTerminator) = some true ∧
    ∀ i ∈ b.insns.dropLast, i.op.isTerminator = false

theorem mem_insns {b : Block} (hb : b ∈ f.blocks) {i : Insn} (hi : i ∈ b.insns) : i ∈ f.insns :=
  List.mem_flatMap.mpr ⟨b, hb, hi⟩

theorem insns_sub_code {i : Insn} (hi : i ∈ f.insns) : i ∈ f.code := by
  obtain ⟨b, hb, hi⟩ := List.mem_flatMap.mp hi
  simp only [Fn.code, List.mem_append, List.mem_flatMap]
  exact .inl (.inr ⟨b, hb, List.mem_cons_of_mem _ hi⟩)

theorem code_sub {i : Insn} (hf : f ∈ m.fns) (hi : i ∈ f.code) : i ∈ m.code :=
  List.mem_append_right _ (List.mem_flatMap.mpr ⟨f, hf, hi⟩)

theorem Module.Kernel.blockLaid (hm : m.Kernel g) (hf : f ∈ m.fns) :
    ∀ b ∈ f.blocks, b.Laid := by
  intro b hb
  have hl := hm.fns f hf
  exact ⟨fun i hi => ⟨hl.insns i (mem_insns hb hi),
    hm.arity i (code_sub hf (insns_sub_code (mem_insns hb hi)))⟩, hl.ends b hb, hl.inner b hb⟩

theorem emitAll_blocks {bs : List Block} (h : ∀ b ∈ bs, b.Laid) (n : Nat) :
    emitAll c (within true n) (bs.flatMap Block.code) =
      (within true (c.nextAfterAll n bs), (c.rewriteBlocks n bs).flatMap Block.code) := by
  induction bs generalizing n with
  | nil => rfl
  | cons b bs ih =>
    obtain ⟨hb, -, hi⟩ := h b List.mem_cons_self
    have hbody := emitAll_within (c := c) (n := n) (fun i hi => (hb i hi).1)
      (fun i hi => (hb i hi).2) hi b.label
    rw [List.flatMap_cons, emitAll_append]
    simp only [Block.code, emitAll, emitInsn_label, hbody,
      ih (fun b' hb' => h b' (List.mem_cons_of_mem b hb')), EmitCtx.rewriteBlocks,
      EmitCtx.nextAfterAll, EmitCtx.rewriteBlock, List.flatMap_cons]
    rfl

theorem emitAll_body {bs : List Block} (h : ∀ b ∈ bs, b.Laid) (hne : bs ≠ []) (n : Nat) :
    emitAll c (within false n) (bs.flatMap Block.code) =
      (within true (c.nextAfterAll n bs), (c.rewriteBody n c.loads bs).flatMap Block.code) := by
  cases bs with
  | nil => exact absurd rfl hne
  | cons b bs =>
    obtain ⟨hb, he, hi⟩ := h b List.mem_cons_self
    have hbody := emitAll_first (c := c) (n := n) (fun i hi => (hb i hi).1)
      (fun i hi => (hb i hi).2) he hi
    rw [List.flatMap_cons, emitAll_append]
    simp only [Block.code, emitAll, emitInsn_label, hbody,
      emitAll_blocks (fun b' hb' => h b' (List.mem_cons_of_mem b hb')), EmitCtx.rewriteBody,
      EmitCtx.nextAfterAll, List.flatMap_cons]
    rfl

theorem Fn.Laid.header_cases (hl : f.Laid g m) {i : Insn} (hi : i ∈ f.header) :
    i.op = .functionParameter ∨ i.op.isLine = true := by
  cases hl.header i hi with
  | inl h => exact .inl h
  | inr h => exact .inr h.1

theorem rewriteInsn_header (hl : f.Laid g m) {i : Insn} (hi : i ∈ f.header) :
    c.rewriteInsn i = [i] := by
  cases hl.header_cases hi with
  | inl h => exact EmitCtx.rewriteInsn_keep (by simp [h]) (by simp [h]) (by simp [drops, h])
  | inr h => exact EmitCtx.rewriteInsn_line h

theorem flatMap_self {is : List Insn} {rw : Insn → List Insn} (h : ∀ i ∈ is, rw i = [i]) :
    is.flatMap rw = is := by
  induction is with
  | nil => rfl
  | cons i is ih =>
    rw [List.flatMap_cons, h i List.mem_cons_self, ih fun j hj => h j (List.mem_cons_of_mem i hj)]
    rfl

/-- Only a function's head is an OpFunction. -/
theorem Fn.Laid.op_ne (hl : f.Laid g m) {i : Insn} (hi : i ∈ f.code) (hne : i ≠ f.head) :
    i.op ≠ .function := by
  simp only [Fn.code, List.mem_append, List.mem_cons, List.mem_flatMap, Block.code] at hi
  obtain ((hi | hi) | ⟨b, hb, rfl | hi⟩) | rfl | hi := hi
  · exact absurd hi hne
  · cases hl.header_cases hi with
    | inl h => simp [h]
    | inr h => rcases Op.isLine_cases h with h | h <;> simp [h]
  · simp
  · exact Op.inBlock_ne (hl.insns i (mem_insns hb hi)) rfl
  · simp
  · rcases Op.isLine_cases (hl.trail i hi).1 with h | h <;> simp [h]

theorem rewriteFn_code (hl : f.Laid g m) : f.code.flatMap c.rewriteInsn = (c.rewriteFn f).code := by
  have hhead : c.rewriteInsn f.head = [f.head] :=
    EmitCtx.rewriteInsn_keep (by simp [Fn.head]) (by simp [Fn.head]) (by simp [drops, Fn.head])
  have hend : c.rewriteInsn ⟨.functionEnd, []⟩ = [⟨.functionEnd, []⟩] :=
    EmitCtx.rewriteInsn_keep (by simp) (by simp) (by simp [drops])
  have hblocks : (f.blocks.flatMap Block.code).flatMap c.rewriteInsn =
      (c.rewriteFn f).blocks.flatMap Block.code := by
    simp only [EmitCtx.rewriteFn, List.flatMap_map, List.flatMap_assoc]
    refine List.flatMap_congr fun b _ => ?_
    have hlabel : c.rewriteInsn ⟨.label, [b.label]⟩ = [⟨.label, [b.label]⟩] :=
      EmitCtx.rewriteInsn_keep (by simp) (by simp) (by simp [drops])
    simp [Block.code, hlabel]
  simp only [Fn.code, List.flatMap_append, List.flatMap_cons, hhead, hend, hblocks,
    flatMap_self fun i hi => rewriteInsn_header hl hi,
    flatMap_self fun i hi => EmitCtx.rewriteInsn_line (hl.trail i hi).1]
  rfl

theorem emitAll_other (hl : f.Laid g m) (hid : f.id ≠ c.scan.fnId) (e : Bool) (n : Nat) :
    emitAll c (between e n) f.code = (between e n, (c.rewriteFn f).code) := by
  rw [emitAll_between, rewriteFn_code hl]
  intro i hi
  by_cases hh : i = f.head
  · simp [hh, isFunctionOf, Fn.head, Insn.arg, hid]
  · exact isFunctionOf_ne (hl.op_ne hi hh) _ _

theorem emitAll_entry (hm : m.Kernel g) (hf : f ∈ m.fns) (hne : f.blocks ≠ [])
    (hid : f.id = c.scan.fnId) (e : Bool) (n : Nat) :
    emitAll c (between e n) f.code =
      (between true (c.nextAfterAll n f.blocks), (c.rewriteEntry n f).code) := by
  have hl := hm.fns f hf
  have hbl := hm.blockLaid hf
  have htrail := emitAll_between (c := c) (e := true) (n := c.nextAfterAll n f.blocks)
    fun i (hi : i ∈ f.trail) => isFunctionOf_ne (by
      rcases Op.isLine_cases (hl.trail i hi).1 with h | h <;> simp [h]) _ _
  rw [flatMap_self fun i hi => EmitCtx.rewriteInsn_line (hl.trail i hi).1] at htrail
  have hheader := emitAll_header (c := c) (fun i hi => hl.header_cases hi) false n
  rw [Fn.code, emitAll_append, emitAll_append]
  simp only [emitAll, emitInsn_head hid, hheader, Bool.false_or]
  cases hlines : f.headerLines.isEmpty with
  | true =>
    have hlines' : (f.header.filter fun i => !isParam i) = [] := by
      simpa [Fn.headerLines] using hlines
    simp only [hlines', List.isEmpty_nil, Bool.not_true, emitAll_body hbl hne, emitInsn_end,
      htrail]
    simp [Fn.code, Fn.head, EmitCtx.rewriteEntry, hlines]
  | false =>
    have hlines' : (f.header.filter fun i => !isParam i).isEmpty = false := hlines
    simp only [hlines', Bool.not_false, emitAll_blocks hbl, emitInsn_end, htrail]
    simp [Fn.code, Fn.head, EmitCtx.rewriteEntry, hlines, EmitCtx.rewriteBody_nil]
    rfl

end Functions

section Declarations
variable {g : Grammar} {m : Module} {c : EmitCtx} {f : Fn}

theorem Op.inGlobals_ne {op op' : Op} (h : op.inGlobals = true) (h' : op'.inGlobals = false) :
    op ≠ op' := by
  intro he
  rw [he, h'] at h
  exact Bool.noConfusion h

/-- A declaration, with what is spliced before and after it. -/
theorem emitInsn_global {i : Insn} (hi : i.op.inGlobals = true) (z t : Bool) (n : Nat) :
    emitInsn c ⟨z, t, false, false, false, n⟩ i =
      (⟨z || i.op == .memoryModel, t || i.op.isType, false, false, false, n⟩,
        (if !t && i.op.isType then c.decorations else []) ++ c.rewriteInsn i ++
          (if !z && i.op == .memoryModel then c.zoneA else [])) := by
  have hfn : i.op ≠ .function := Op.inGlobals_ne hi rfl
  have hbc : i.op ≠ .bitcast := Op.inGlobals_ne hi rfl
  have hen : i.op ≠ .functionEnd := Op.inGlobals_ne hi rfl
  have hf := isFunctionOf_ne hfn c.scan.fnId 4
  have hcast : c.isPointerCast i = false := by simp [EmitCtx.isPointerCast, hbc]
  cases hspec : isSpecBitcast i with
  | true =>
    have hop : i.op = .specConstantOp := by
      simp only [isSpecBitcast, Bool.and_eq_true, beq_iff_eq] at hspec
      exact hspec.1.1
    simp [emitInsn, EmitCtx.rewriteInsn, hspec, hop, Op.isType, Op.code]
  | false =>
    by_cases hmm : i.op = .memoryModel
    · cases z <;>
        simp [emitInsn, emitRest, EmitCtx.rewriteInsn, hspec, hcast, hmm, hf, drops, Op.isType,
          Op.code]
    · simp [emitInsn, emitRest, EmitCtx.rewriteInsn, hspec, hcast, hmm, hf, hfn, hen]

theorem emitAll_globals {is : List Insn} (h : ∀ i ∈ is, i.op.inGlobals = true) (z t : Bool)
    (n : Nat) :
    (emitAll c ⟨z, t, false, false, false, n⟩ is).1 =
      ⟨z || is.any (·.op == .memoryModel), t || is.any (·.op.isType), false, false, false, n⟩ := by
  induction is generalizing z t with
  | nil => simp [emitAll]
  | cons i is ih =>
    simp only [emitAll, emitInsn_global (h i List.mem_cons_self),
      ih fun j hj => h j (List.mem_cons_of_mem i hj), List.any_cons, Bool.or_assoc]

/-- The first OpFunction brings the declarations. -/
theorem emitAll_first_fn {fns : List Fn} (hne : fns ≠ []) (n : Nat) :
    emitAll c ⟨true, true, false, false, false, n⟩ (fns.flatMap Fn.code) =
      ((emitAll c (between false n) (fns.flatMap Fn.code)).1,
        c.declarations ++ (emitAll c (between false n) (fns.flatMap Fn.code)).2) := by
  cases fns with
  | nil => exact absurd rfl hne
  | cons h hs =>
    have hhead : emitInsn c ⟨true, true, false, false, false, n⟩ h.head =
        ((emitInsn c (between false n) h.head).1,
          c.declarations ++ (emitInsn c (between false n) h.head).2) := by
      simp [emitInsn, between, isSpecBitcast, EmitCtx.isPointerCast, Fn.head, Op.isType, Op.code]
    simp only [List.flatMap_cons, Fn.code, List.cons_append, emitAll, hhead, List.append_assoc]

theorem fn_mem_ids {h : Fn} (hh : h ∈ m.fns) : h.id ∈ m.fns.flatMap (Fn.defs g) :=
  List.mem_flatMap.mpr ⟨h, hh, by simp [Fn.defs]⟩

/-- Functions before and after the entry have other ids. -/
theorem Module.ValidIds.split (hm : m.ValidIds g) (hf : f ∈ m.fns) :
    ∃ a b, m.fns = a ++ f :: b ∧ ∀ h ∈ a ++ b, h.id ≠ f.id := by
  obtain ⟨a, b, hab⟩ := List.append_of_mem hf
  refine ⟨a, b, hab, ?_⟩
  have hnd := (List.nodup_append.mp hm.nodup).2.1
  rw [hab, List.flatMap_append, List.flatMap_cons] at hnd
  intro h hh he
  have hfid : f.id ∈ f.defs g := by simp [Fn.defs]
  have hhid : h.id ∈ h.defs g := by simp [Fn.defs]
  cases List.mem_append.mp hh with
  | inl ha =>
    exact (List.nodup_append.mp hnd).2.2 h.id (List.mem_flatMap.mpr ⟨h, ha, hhid⟩) f.id
      (List.mem_append_left _ hfid) he
  | inr hb =>
    have hnd' := (List.nodup_append.mp hnd).2.1
    exact (List.nodup_append.mp hnd').2.2 f.id hfid h.id
      (List.mem_flatMap.mpr ⟨h, hb, hhid⟩) he.symm

theorem Module.ValidIds.fn_unique (hm : m.ValidIds g) (hf : f ∈ m.fns) {h : Fn} (hh : h ∈ m.fns)
    (hid : h.id = f.id) : h = f := by
  obtain ⟨a, b, hab, hother⟩ := hm.split hf
  rw [hab, List.mem_append, List.mem_cons] at hh
  obtain hh | rfl | hh := hh
  · exact absurd hid (hother h (List.mem_append_left b hh))
  · rfl
  · exact absurd hid (hother h (List.mem_append_right a hh))

theorem emitAll_others {hs : List Fn} (hl : ∀ h ∈ hs, h.Laid g m)
    (hid : ∀ h ∈ hs, h.id ≠ c.scan.fnId) (e : Bool) (n : Nat) :
    emitAll c (between e n) (hs.flatMap Fn.code) =
      (between e n, (c.rewriteFns n hs).flatMap Fn.code) := by
  induction hs with
  | nil => rfl
  | cons h hs ih =>
    have hne := hid h List.mem_cons_self
    rw [List.flatMap_cons, emitAll_append, emitAll_other (hl h List.mem_cons_self) hne,
      ih (fun k hk => hl k (List.mem_cons_of_mem h hk))
        (fun k hk => hid k (List.mem_cons_of_mem h hk))]
    simp [EmitCtx.rewriteFns, hne]

theorem rewriteFns_others {hs : List Fn} (hid : ∀ h ∈ hs, h.id ≠ c.scan.fnId) (n n' : Nat) :
    c.rewriteFns n hs = c.rewriteFns n' hs :=
  List.map_congr_left fun h hh => by simp [hid h hh]

theorem Module.Kernel.any_memoryModel (hm : m.Kernel g) :
    m.globals.any (·.op == .memoryModel) = true := by
  obtain ⟨i, hi⟩ := List.length_eq_one_iff.mp hm.memoryModel
  have hmem : i ∈ m.globals.filter (·.op == .memoryModel) := by simp [hi]
  exact List.any_eq_true.mpr ⟨i, (List.mem_filter.mp hmem).1, (List.mem_filter.mp hmem).2⟩

/-- The emit pass writes `rewriteModule`. -/
theorem emitAll_module (hm : m.Kernel g) (hf : f ∈ m.fns) (hne : f.blocks ≠ [])
    (hid : f.id = c.scan.fnId) (n : Nat) :
    emitAll c { next := n } m.code =
      (between true (c.rewriteModule n m f).bound, (c.rewriteModule n m f).code) := by
  obtain ⟨a, b, hab, hother⟩ := hm.ids.split hf
  have hlaid := hm.fns
  rw [hab] at hlaid
  rw [hid] at hother
  have hmodel := hm.any_memoryModel
  have htype : m.globals.any (·.op.isType) = true :=
    List.any_eq_true.mpr ⟨_, (hm.fns f hf).type, rfl⟩
  have hglob := emitAll_globals (c := c) hm.globals false false n
  rw [hmodel, htype] at hglob
  have hfns : emitAll c (between false n) (m.fns.flatMap Fn.code) =
      (between true (c.nextAfterAll n f.blocks), (c.rewriteFns n m.fns).flatMap Fn.code) := by
    have ha := fun e => emitAll_others (c := c) (fun h hh => hlaid h (by simp [hh]))
      (fun h hh => hother h (List.mem_append_left b hh)) e n
    have hb := emitAll_others (c := c) (fun h hh => hlaid h (by simp [hh]))
      (fun h hh => hother h (List.mem_append_right a hh)) true (c.nextAfterAll n f.blocks)
    rw [rewriteFns_others (fun h hh => hother h (List.mem_append_right a hh)) _ n] at hb
    rw [hab, List.flatMap_append, List.flatMap_cons, emitAll_append, ha, emitAll_append,
      emitAll_entry hm hf hne hid, hb]
    simp [EmitCtx.rewriteFns, hid]
  have hne' : m.fns ≠ [] := List.ne_nil_of_mem hf
  rw [Module.code, emitAll_append]
  simp only [hglob, Bool.false_or, emitAll_first_fn hne', hfns]
  simp [Module.code, EmitCtx.rewriteModule]

end Declarations

end Lagfx.Spirv
