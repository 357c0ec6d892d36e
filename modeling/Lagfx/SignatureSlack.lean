import Lagfx.SignatureSound

/-! The output buffer of the signature transform. It is sized from the input and one allowance
for all that the pass adds; here that is counted on the input, instruction by instruction. -/
namespace Lagfx.Spirv

/-- The scan accepts the stream: `insns` are its instructions and `s` is what it finds. -/
structure ScanAccepts (words entry : List Nat) (insns : List Insn) (s : ScanState) : Prop where
  named : entry ≠ []
  magic : words.getD 0 0 = spvMagic
  header : 5 ≤ words.length
  framed : decodeInsns (words.drop 5) = some insns
  scanned : scanModule (words.getD 3 0) insns entry = .ok s

/- What the pass adds and what it removes. -/

namespace EmitCtx
variable (c : EmitCtx)

/-- Inside the entry function, once `i` is passed. -/
def insideAfter (inside : Bool) (i : Insn) : Bool :=
  isFunctionOf c.scan.fnId 4 i || inside && i.op != .functionEnd

/-- Words in the place of an instruction that is replaced or dropped. -/
def replacedBy (inside : Bool) (i : Insn) : Option Nat :=
  if isSpecBitcast i then some 3
  else if c.isPointerCast i then
    some (if c.scan.lifetimeOperandIds.contains (i.arg 1) then 0 else 5)
  else if isFunctionOf c.scan.fnId 4 i then some 5
  else if inside && i.op == .returnValue && decide (1 ≤ i.args.length) then some c.returnWords
  else if drops inside i then some 0
  else none

def putIn : Bool → List Insn → Nat
  | _, [] => 0
  | inside, i::is => (c.replacedBy inside i).getD 0+putIn (c.insideAfter inside i) is

def takenOut : Bool → List Insn → Nat
  | _, [] => 0
  | inside, i::is =>
    ((c.replacedBy inside i).map fun _ => i.words).getD 0+takenOut (c.insideAfter inside i) is

/-- In the entry function the loads stand before this instruction at the latest. The first
OpMemoryModel is taken by the metadata splice wherever it stands. -/
def needsLoads (modelSeen : Bool) (i : Insn) : Bool :=
  !isSpecBitcast i && !c.isPointerCast i && (modelSeen || i.op != .memoryModel) &&
    !isFunctionOf c.scan.fnId 4 i && i.op != .functionEnd && !drops true i && i.op != .label &&
    i.op != .var

/-- The loads are still to come, once `i` is passed. -/
def pendingAfter (modelSeen pending : Bool) (i : Insn) : Bool :=
  isFunctionOf c.scan.fnId 4 i || pending && i.op != .functionEnd && !c.needsLoads modelSeen i

/-- How often the loads are put in: once behind each header of the entry function. -/
def loadPoints : Bool → Bool → List Insn → Nat
  | _, _, [] => 0
  | modelSeen, pending, i::is =>
    (if pending && c.needsLoads modelSeen i then 1 else 0) +
      loadPoints (modelSeen || i.op == .memoryModel) (c.pendingAfter modelSeen pending i) is

/-- Members of the return value and parameters. -/
def interfaceSize : Nat := c.scan.retMemberTypes.length+c.scan.paramTypes.length

def zoneAWords : Nat :=
  (if c.scan.hasShaderCap then 0 else 2)+(3+(c.entry.length+4)/4+c.interfaceSize) +
    (if c.stage = .fragment then 3 else 0)

def declarationWords : Nat :=
  (if c.scan.voidId = 0 then 2 else 0)+(if c.scan.uintTypeId = 0 then 4 else 0) +
    (if c.scan.uintZeroId = 0 then 4 else 0)+3+8*c.interfaceSize

def loadWords : Nat := 4*min c.params.length c.scan.paramTypes.length

/-- The additions are covered by the slack and what is removed. -/
def FitsSlack (insns : List Insn) : Prop :=
  (if insns.any (·.op == .memoryModel) then c.zoneAWords else 0)+4*c.interfaceSize +
      c.declarationWords+c.loadWords*c.loadPoints false false insns+c.putIn false insns ≤
    slackWords c.entry+c.takenOut false insns

instance (insns : List Insn) : Decidable (c.FitsSlack insns) :=
  inferInstanceAs (Decidable (_ ≤ _))

end EmitCtx

/- Words of what is spliced in. -/

theorem wordCount_map {α : Type*} {l : List α} {F : α → Insn} {n : Nat}
    (h : ∀ a ∈ l, (F a).words = n) : wordCount (l.map F) = n*l.length := by
  induction l with
  | nil => rfl
  | cons a l ih =>
    rw [List.map_cons, wordCount_cons, h a List.mem_cons_self,
      ih fun b hb => h b (List.mem_cons_of_mem a hb), List.length_cons, Nat.mul_succ, Nat.add_comm]

section Splices
variable {c : EmitCtx} (hids : c.ids = (planSynthIds c.scan).1)
include hids

theorem outs_length : c.ids.outs.length = c.scan.retMemberTypes.length := by
  simp [hids, planSynthIds, freshPairs_length]

theorem ins_length : c.ids.ins.length = c.scan.paramTypes.length := by
  simp [hids, planSynthIds, freshPairs_length]

omit hids in
theorem packString_length (s : List Nat) : (packString s).length = (s.length+4)/4 := by
  induction s using packString.induct with
  | case1 a b c d s ih =>
    rw [packString, List.length_cons, ih]
    simp only [List.length_cons]
    omega
  | case2 | case3 | case4 | case5 => simp [packString]

theorem wordCount_zoneA : wordCount c.zoneA = c.zoneAWords := by
  have hentry : c.entryPoint.words = 3+(c.entry.length+4)/4+c.interfaceSize := by
    simp only [EmitCtx.entryPoint, Insn.words, EmitCtx.outVars, EmitCtx.inVars, List.length_append,
      List.length_cons, List.length_map, packString_length, outs_length hids, ins_length hids,
      EmitCtx.interfaceSize]
    omega
  rw [EmitCtx.zoneA, wordCount_append, wordCount_append, wordCount_cons, wordCount_nil, hentry,
    EmitCtx.zoneAWords]
  split_ifs <;> rfl

theorem wordCount_decorations : wordCount c.decorations = 4*c.interfaceSize := by
  have hout : ∀ v ∈ c.outVars.zipIdx, (outputDecoration c.stage v.1 v.2).words = 4 := by
    intro v _
    rw [outputDecoration]
    split_ifs <;> rfl
  have hin : ∀ v ∈ c.inVars.zipIdx, (inputDecoration c.stage v.1 v.2).words = 4 := by
    intro v _
    rw [inputDecoration]
    split_ifs <;> rfl
  rw [EmitCtx.decorations, wordCount_append, wordCount_map hout, wordCount_map hin]
  simp only [List.length_zipIdx, EmitCtx.outVars, EmitCtx.inVars, List.length_map,
    outs_length hids, ins_length hids, EmitCtx.interfaceSize]
  omega

theorem wordCount_declarations : wordCount c.declarations = c.declarationWords := by
  have hvars : ∀ (storage : Nat) (ps : List (Nat × Nat)) (ts : List Nat), ps.length = ts.length →
      wordCount ((ps.zip ts).flatMap (interfaceVar storage)) = 8*ts.length := by
    intro storage ps ts hlen
    rw [wordCount_flatMap (w := fun _ => 8) fun p _ => rfl]
    simp [hlen, Nat.mul_comm]
  have hout := hvars 3 _ _ (outs_length hids)
  have hin := hvars 1 _ _ (ins_length hids)
  simp only [EmitCtx.declarations, wordCount_append, hout, hin, EmitCtx.declarationWords,
    EmitCtx.interfaceSize]
  split_ifs <;> simp only [wordCount_cons, wordCount_nil, Insn.words, List.length_cons,
    List.length_nil] <;> omega

theorem wordCount_loads : wordCount c.loads = c.loadWords := by
  rw [EmitCtx.loads, wordCount_map (n := 4) fun _ _ => rfl]
  simp only [List.length_zip, EmitCtx.inVars, List.length_map, ins_length hids,
    EmitCtx.loadWords]
  omega

end Splices

/- The pass, instruction by instruction. -/

section Steps
variable {c : EmitCtx} (hids : c.ids = (planSynthIds c.scan).1) {st : EmitState} {i : Insn}

/-- What the pass writes for one instruction, the splices before types and functions and behind
the memory model apart, and where it stands after. -/
structure Passes (c : EmitCtx) (st : EmitState) (i : Insn) (r : EmitState × List Insn) :
    Prop where
  words : wordCount r.2+((c.replacedBy st.inTargetFn i).map fun _ => i.words).getD 0 =
    i.words+(c.replacedBy st.inTargetFn i).getD 0 +
      c.loadWords*(if (st.inTargetFn && !st.emittedLoads) &&
        c.needsLoads st.injectedZoneA i then 1 else 0)
  inside : r.1.inTargetFn = c.insideAfter st.inTargetFn i
  pending : (r.1.inTargetFn && !r.1.emittedLoads) =
    c.pendingAfter st.injectedZoneA (st.inTargetFn && !st.emittedLoads) i
  zoneA : r.1.injectedZoneA = st.injectedZoneA
  preTypes : r.1.injectedPreTypes = st.injectedPreTypes
  preFunction : r.1.injectedPreFunction = st.injectedPreFunction

theorem isFunctionOf_of_ne (hf : i.op ≠ .function) (id n : Nat) :
    isFunctionOf id n i = false := by
  rw [isFunctionOf, beq_eq_false_iff_ne.2 hf]
  rfl

theorem insideAfter_of_ne (hf : i.op ≠ .function) (he : i.op ≠ .functionEnd) (inside : Bool) :
    c.insideAfter inside i = inside := by
  rw [EmitCtx.insideAfter, isFunctionOf_of_ne hf, bne_iff_ne.2 he, Bool.false_or, Bool.and_true]

theorem pendingAfter_of_ne (hf : i.op ≠ .function) (he : i.op ≠ .functionEnd)
    {modelSeen : Bool} (hn : c.needsLoads modelSeen i = false) (pending : Bool) :
    c.pendingAfter modelSeen pending i = pending := by
  rw [EmitCtx.pendingAfter, isFunctionOf_of_ne hf, bne_iff_ne.2 he, hn, Bool.false_or,
    Bool.and_true, Bool.not_false, Bool.and_true]

include hids

theorem emitInTarget_passes (hs : isSpecBitcast i = false) (hp : c.isPointerCast i = false)
    (hz : (st.injectedZoneA || i.op != .memoryModel) = true)
    (hf : isFunctionOf c.scan.fnId 4 i = false) (he : (i.op != .functionEnd) = true)
    (hin : st.inTargetFn = true) : Passes c st i (emitInTarget c st i) := by
  have hreplaced : c.replacedBy true i =
      if i.op = .returnValue ∧ 1 ≤ i.args.length then some c.returnWords
      else if drops true i then some 0 else none := by
    simp [EmitCtx.replacedBy, hs, hp, hf]
  have hneeds : c.needsLoads st.injectedZoneA i =
      (!drops true i && i.op != .label && i.op != .var) := by
    simp [EmitCtx.needsLoads, hs, hp, hz, hf, he]
  have hinside : c.insideAfter true i = true := by simp [EmitCtx.insideAfter, he]
  have hpending : c.pendingAfter st.injectedZoneA (!st.emittedLoads) i =
      (!st.emittedLoads && !c.needsLoads st.injectedZoneA i) := by
    simp [EmitCtx.pendingAfter, hf, he]
  rw [emitInTarget]
  by_cases hd : drops true i = true
  · have hnot : i.op ≠ .returnValue := by
      intro h
      rw [drops, h] at hd
      cases hd
    rw [if_pos hd]
    constructor <;> simp [hin, hreplaced, hneeds, hinside, hpending, hd, hnot, wordCount_nil]
  · rw [if_neg hd]
    by_cases hl : i.op = .label
    · rw [if_pos hl]
      constructor <;> simp [hin, hreplaced, hneeds, hinside, hpending, hd, hl, wordCount_cons,
        wordCount_nil]
    · have hvar : c.needsLoads st.injectedZoneA i = (i.op != .var) := by
        rw [hneeds, Bool.eq_false_of_not_eq_true hd, bne_iff_ne.2 hl]
        rfl
      have hpre : wordCount (if !st.emittedLoads && i.op != .var then c.loads else []) =
          c.loadWords*(if !st.emittedLoads && i.op != .var then 1 else 0) := by
        split_ifs
        · rw [wordCount_loads hids, Nat.mul_one]
        · rfl
      rw [if_neg hl]
      by_cases hr : i.op = .returnValue ∧ 1 ≤ i.args.length
      · have hlen : c.outVars.length = c.scan.retMemberTypes.length := by
          rw [EmitCtx.outVars, List.length_map, outs_length hids]
        have hreturn := wordCount_returnStores hlen st.next (i.arg 0)
        simp only [if_pos hr]
        constructor
        · simp only [wordCount_append _ (_ ++ _), hreturn, hpre, hin, hreplaced, if_pos hr, hvar,
            Option.map_some, Option.getD_some, Bool.true_and]
          omega
        all_goals simp [hin, hvar, hinside, hpending]
      · simp only [if_neg hr]
        constructor
        · simp only [wordCount_append, hpre, hin, hreplaced, if_neg hr, if_neg hd, hvar,
            Option.map_none, Option.getD_none, Bool.true_and, wordCount_cons, wordCount_nil]
          omega
        all_goals simp [hin, hvar, hinside, hpending]

theorem emitRest_passes (hs : isSpecBitcast i = false) (hp : c.isPointerCast i = false)
    (hz : (st.injectedZoneA || i.op != .memoryModel) = true) :
    Passes c st i (emitRest c st i) := by
  rw [emitRest]
  cases hf : isFunctionOf c.scan.fnId 4 i with
  | true =>
    have hneeds : c.needsLoads st.injectedZoneA i = false := by simp [EmitCtx.needsLoads, hf]
    constructor <;> simp [EmitCtx.replacedBy, EmitCtx.insideAfter, EmitCtx.pendingAfter, hs, hp,
      hf, hneeds, wordCount_cons, wordCount_nil, Insn.words, Nat.add_comm]
  | false =>
    by_cases he : i.op = .functionEnd
    · have hneeds : c.needsLoads st.injectedZoneA i = false := by simp [EmitCtx.needsLoads, he]
      constructor <;> simp [EmitCtx.replacedBy, EmitCtx.insideAfter, EmitCtx.pendingAfter, hs, hp,
        hf, he, drops, hneeds, wordCount_cons, wordCount_nil]
    · simp only [Bool.false_eq_true, if_false, if_neg he]
      cases hin : st.inTargetFn with
      | true => exact emitInTarget_passes hids hs hp hz hf (bne_iff_ne.2 he) hin
      | false =>
        simp only [Bool.false_eq_true, if_false]
        constructor <;> cases hd : drops false i <;>
          simp [EmitCtx.replacedBy, EmitCtx.insideAfter, EmitCtx.pendingAfter, hs, hp, hf, hin, hd,
            wordCount_cons, wordCount_nil]

/-- One step of the pass. What is spliced at the first type, function or memory model stands
apart, each with the flag that says whether it has been. -/
structure Steps (c : EmitCtx) (st : EmitState) (i : Insn) (r : EmitState × List Insn) :
    Prop where
  words : wordCount r.2+((c.replacedBy st.inTargetFn i).map fun _ => i.words).getD 0 =
    i.words+(c.replacedBy st.inTargetFn i).getD 0 +
      c.loadWords*(if (st.inTargetFn && !st.emittedLoads) &&
        c.needsLoads st.injectedZoneA i then 1 else 0) +
      wordCount (if !st.injectedPreTypes && i.op.isType then c.decorations else []) +
      wordCount (if !st.injectedPreFunction && i.op == .function then c.declarations else []) +
      wordCount (if !st.injectedZoneA && i.op == .memoryModel then c.zoneA else [])
  inside : r.1.inTargetFn = c.insideAfter st.inTargetFn i
  pending : (r.1.inTargetFn && !r.1.emittedLoads) =
    c.pendingAfter st.injectedZoneA (st.inTargetFn && !st.emittedLoads) i
  zoneA : r.1.injectedZoneA = (st.injectedZoneA || i.op == .memoryModel)
  preTypes : r.1.injectedPreTypes = (st.injectedPreTypes || i.op.isType)
  preFunction : r.1.injectedPreFunction = (st.injectedPreFunction || i.op == .function)

theorem emitInsn_steps : Steps c st i (emitInsn c st i) := by
  rw [emitInsn]
  cases hs : isSpecBitcast i with
  | true =>
    have hop : i.op = .specConstantOp := by
      rw [isSpecBitcast, Bool.and_eq_true, Bool.and_eq_true] at hs
      exact beq_iff_eq.1 hs.1.1
    have hf : i.op ≠ .function := by simp [hop]
    have he : i.op ≠ .functionEnd := by simp [hop]
    have hn : c.needsLoads st.injectedZoneA i = false := by simp [EmitCtx.needsLoads, hs]
    constructor <;> simp [EmitCtx.replacedBy, insideAfter_of_ne hf he, pendingAfter_of_ne hf he hn,
      Op.isType, Op.code, hs, hop, hn, wordCount_cons, wordCount_nil, Insn.words, Nat.add_comm]
  | false =>
    cases hp : c.isPointerCast i with
    | true =>
      have hop : i.op = .bitcast := by
        rw [EmitCtx.isPointerCast, Bool.and_eq_true, Bool.and_eq_true] at hp
        exact beq_iff_eq.1 hp.1.1
      have hf : i.op ≠ .function := by simp [hop]
      have he : i.op ≠ .functionEnd := by simp [hop]
      have hn : c.needsLoads st.injectedZoneA i = false := by simp [EmitCtx.needsLoads, hp]
      simp only [Bool.false_eq_true, if_false, if_true]
      constructor <;> simp [EmitCtx.replacedBy, insideAfter_of_ne hf he,
        pendingAfter_of_ne hf he hn, Op.isType, Op.code, hs, hp, hop, hn, wordCount_nil]
      split_ifs <;> simp [wordCount_cons, wordCount_nil, Insn.words, EmitCtx.asAccessChain,
        Nat.add_comm]
    | false =>
      simp only [Bool.false_eq_true, if_false]
      cases hz : !st.injectedZoneA && i.op == .memoryModel with
      | true =>
        obtain ⟨hseen, hop⟩ := Bool.and_eq_true_iff.1 hz
        rw [beq_iff_eq] at hop
        rw [Bool.not_eq_true'] at hseen
        have hf : i.op ≠ .function := by simp [hop]
        have he : i.op ≠ .functionEnd := by simp [hop]
        have hn : c.needsLoads false i = false := by simp [EmitCtx.needsLoads, hop]
        have hkept : c.replacedBy st.inTargetFn i = none := by
          simp [EmitCtx.replacedBy, hs, hp, isFunctionOf_of_ne hf, hop, drops]
        constructor <;> simp [hkept, insideAfter_of_ne hf he, pendingAfter_of_ne hf he hn, hn,
          Op.isType, Op.code, hseen, hop, wordCount_cons, wordCount_nil]
      | false =>
        have hseen : (st.injectedZoneA || i.op != .memoryModel) = true := by
          cases hm : st.injectedZoneA <;> simp_all
        have hrest : Passes c { st with
            injectedPreTypes := st.injectedPreTypes || i.op.isType
            injectedPreFunction := st.injectedPreFunction || i.op == .function } i _ :=
          emitRest_passes hids hs hp hseen
        simp only [Bool.false_eq_true, if_false]
        exact {
          words := by
            have hwords := hrest.words
            simp only [wordCount_append, hz, Bool.false_eq_true, if_false, wordCount_nil]
              at hwords ⊢
            omega
          inside := hrest.inside
          pending := hrest.pending
          zoneA := by
            rw [hrest.zoneA]
            cases hm : st.injectedZoneA with
            | true => rfl
            | false =>
              rw [hm, Bool.not_false, Bool.true_and] at hz
              exact hz.symm
          preTypes := hrest.preTypes
          preFunction := hrest.preFunction }

/-- The whole pass: words out and words removed, against words in and words added. -/
theorem emitAll_words (is : List Insn) (st : EmitState) :
    wordCount (emitAll c st is).2+c.takenOut st.inTargetFn is =
      wordCount is+c.putIn st.inTargetFn is +
        c.loadWords*c.loadPoints st.injectedZoneA (st.inTargetFn && !st.emittedLoads) is +
        (if !st.injectedPreTypes && is.any (·.op.isType) then wordCount c.decorations else 0) +
        (if !st.injectedPreFunction && is.any (·.op == .function) then
          wordCount c.declarations else 0) +
        (if !st.injectedZoneA && is.any (·.op == .memoryModel) then wordCount c.zoneA else 0) := by
  induction is generalizing st with
  | nil => simp [emitAll, EmitCtx.takenOut, EmitCtx.putIn, EmitCtx.loadPoints, wordCount_nil]
  | cons i is ih =>
    have hstep : Steps c st i (emitInsn c st i) := emitInsn_steps hids
    have hrest := ih (emitInsn c st i).1
    have hwords := hstep.words
    rw [hstep.pending, hstep.inside, hstep.zoneA, hstep.preTypes, hstep.preFunction] at hrest
    simp only [emitAll, wordCount_append, wordCount_cons, EmitCtx.takenOut, EmitCtx.putIn,
      EmitCtx.loadPoints, Nat.mul_add]
    rw [List.any_cons, List.any_cons, List.any_cons, ← wordCount_once, ← wordCount_once,
      ← wordCount_once]
    omega

end Steps

/- The whole transform. -/

theorem decodeLoop_words {fuel : Nat} {ws : List Nat} {is : List Insn}
    (h : decodeLoop fuel ws = some is) : wordCount is = ws.length := by
  induction fuel generalizing ws is with
  | zero =>
    cases ws with
    | nil =>
      cases h
      rfl
    | cons w ws => cases h
  | succ fuel ih =>
    cases ws with
    | nil =>
      cases h
      rfl
    | cons w ws =>
      simp only [decodeLoop] at h
      split_ifs at h with hframe
      cases hrest : decodeLoop fuel (ws.drop (w/65536 % 65536-1)) with
      | none =>
        rw [hrest] at h
        cases h
      | some js =>
        rw [hrest] at h
        obtain rfl := Option.some.inj h
        rw [wordCount_cons, ih hrest, Insn.words, List.length_take, List.length_drop,
          List.length_cons]
        omega

section
variable {words entry : List Nat} {insns : List Insn} {s : ScanState}

theorem ScanAccepts.length (h : ScanAccepts words entry insns s) :
    words.length = 5+wordCount insns := by
  have hwords := decodeLoop_words h.framed
  have hheader := h.header
  rw [List.length_drop] at hwords
  omega

/-- The scan has found the entry function and its type, so there is a place for both splices. -/
theorem ScanAccepts.places (h : ScanAccepts words entry insns s) :
    insns.any (·.op.isType) = true ∧ insns.any (·.op == .function) = true := by
  have hcode : (⟨words.getD 3 0, insns, []⟩ : Module).code = insns := by simp [Module.code]
  have hscanned := h.scanned
  rw [← hcode] at hscanned
  obtain ⟨fn, ps, b, ts, hfn, hps, -⟩ :=
    scanModule_ok (m := ⟨words.getD 3 0, insns, []⟩) hscanned
  rw [hcode] at hfn hps
  constructor
  · rw [scanSignature] at hps
    cases hty : insns.find? (isTypeFunctionOf (fn.arg 3)) with
    | none =>
      rw [hty] at hps
      cases hps
    | some ty =>
      have hop := List.find?_some hty
      rw [isTypeFunctionOf, Bool.and_eq_true, Bool.and_eq_true, beq_iff_eq] at hop
      exact List.any_eq_true.2 ⟨ty, List.mem_of_find?_eq_some hty, by rw [hop.1.1]; rfl⟩
  · have hop := List.find?_some hfn
    rw [isFunctionOf, Bool.and_eq_true, Bool.and_eq_true] at hop
    exact List.any_eq_true.2 ⟨fn, List.mem_of_find?_eq_some hfn, hop.1.1⟩

theorem ScanAccepts.fits_iff (h : ScanAccepts words entry insns s) (stage : SpvStage) :
    5+wordCount (emitModule s insns entry stage).2 ≤ words.length+slackWords entry ↔
      (emitCtx s insns entry stage).FitsSlack insns := by
  have hids : (emitCtx s insns entry stage).ids =
      (planSynthIds (emitCtx s insns entry stage).scan).1 := rfl
  have hall := emitAll_words hids insns { next := (planSynthIds s).2 }
  obtain ⟨htype, hfunction⟩ := h.places
  have hlen := h.length
  have hentry : (emitCtx s insns entry stage).entry = entry := rfl
  simp only [Bool.not_false, Bool.and_true, Bool.true_and, htype, hfunction, if_true,
    wordCount_zoneA hids, wordCount_decorations hids, wordCount_declarations hids] at hall
  rw [EmitCtx.FitsSlack, emitModule, hlen, hentry]
  omega

end

/-- The stream of a module with a scanned entry is accepted. -/
theorem stream_accepts {m : Module} (hstream : ∀ i ∈ m.code, i.op.Canonical ∧ i.words < 65536)
    {entry : List Nat} {s : ScanState} (hentry : entry ≠ [])
    (hs : scanModule m.bound m.code entry = .ok s) (h : StreamHeader) :
    ScanAccepts (m.stream h) entry m.code s where
  named := hentry
  magic := rfl
  header := by
    rw [Module.stream, List.length_append]
    exact Nat.le_add_right 5 _
  framed := decodeLoop_pack hstream _ le_rfl
  scanned := hs

/-- In a module laid out in functions the additions and removals are counted part by part. -/
theorem Module.Kernel.fits_iff {g : Grammar} {m : Module} (hm : m.Kernel g) {f : Fn}
    (hf : f ∈ m.fns) (hne : f.blocks ≠ []) {entry : List Nat} {s : ScanState}
    (hentry : entry ≠ []) (hs : scanModule m.bound m.code entry = .ok s) (hid : f.id = s.fnId)
    (stage : SpvStage) :
    (emitCtx s m.code entry stage).FitsSlack m.code ↔
      (emitCtx s m.code entry stage).wordsAfter m f ≤ wordCount m.code+slackWords entry := by
  have haccepts := stream_accepts hm.stream hentry hs ⟨0, 0, 0⟩
  have hc : (emitCtx s m.code entry stage).For g m f := emitCtx_for hm hf hs hid
  have hemit : emitModule s m.code entry stage = _ :=
    emitAll_module (c := emitCtx s m.code entry stage) hm hf hne hid _
  have hwords : wordCount
      ((emitCtx s m.code entry stage).rewriteModule (planSynthIds s).2 m f).code =
        (emitCtx s m.code entry stage).wordsAfter m f := wordCount_rewriteModule hm hc hf hne
  rw [← haccepts.fits_iff stage, haccepts.length, hemit, hwords]
  omega

/-- For every stream the scan accepts: the words that are emitted fit the buffer exactly if the
additions are covered by the slack and by what is removed; otherwise it is overrun. -/
theorem output_within_iff {words entry : List Nat} {insns : List Insn} {s : ScanState}
    (h : ScanAccepts words entry insns s) (stage : SpvStage) :
    (5+wordCount (emitModule s insns entry stage).2 ≤ words.length+slackWords entry ↔
      (emitCtx s insns entry stage).FitsSlack insns) ∧
    (signatureTransform words entry stage true = .overrun ↔
      ¬(emitCtx s insns entry stage).FitsSlack insns) := by
  have hfits := h.fits_iff stage
  refine ⟨hfits, ?_⟩
  rw [← hfits, Nat.not_le]
  have hentry : entry.isEmpty = false := by simpa using h.named
  have hheader : ¬words.length < 5 := Nat.not_lt.2 h.header
  simp only [signatureTransform, hentry, h.magic, h.framed, h.scanned, hheader, ne_eq,
    not_true_eq_false, Bool.false_eq_true, or_self, if_false, Bool.not_true]
  by_cases hover : words.length+slackWords entry < 5+wordCount (emitModule s insns entry stage).2
  · rw [if_pos hover]
    exact iff_of_true rfl hover
  · rw [if_neg hover]
    refine iff_of_false ?_ hover
    split_ifs <;> exact not_false

/-- `main` returns a struct of eight floats from each of `n` cases of a switch. -/
def casesModule (n : Nat) : Module where
  bound := 40
  globals := [⟨.memoryModel, [0, 1]⟩, ⟨.name, [7, 1852399981, 0]⟩, ⟨.typeInt, [1, 32, 0]⟩,
    ⟨.typeFloat, [2, 32]⟩, ⟨.typeStruct, [3, 2, 2, 2, 2, 2, 2, 2, 2]⟩, ⟨.typeFunction, [4, 3]⟩,
    ⟨.constant, [1, 5, 2]⟩, ⟨.undef, [3, 6]⟩]
  fns := [{
    retType := 3
    id := 7
    control := 0
    fnType := 4
    header := []
    blocks := ⟨8, [⟨.other 251, 5::9::(List.range n).flatMap fun k => [k, 9+k]⟩]⟩::
      (List.range n).map fun k => ⟨9+k, [⟨.returnValue, [6]⟩]⟩ }]

/-- What the scan finds in it. -/
def casesScan : ScanState :=
  { bound := 40, fnId := 7, foundFn := true, fnTypeId := 4, fnRetTypeId := 3, retIsStruct := true
    retMemberTypes := [2, 2, 2, 2, 2, 2, 2, 2], uintTypeId := 1 }

theorem casesModule_accepts {n : Nat} (hn : n = 10 ∨ n = 11) :
    ScanAccepts ((casesModule n).stream shaderHeader) mainName (casesModule n).code casesScan := by
  have hstream : ∀ i ∈ (casesModule n).code, i.op.Canonical ∧ i.words < 65536 := by
    obtain rfl | rfl := hn <;> decide
  have hscan : scanModule 40 (casesModule n).code mainName = .ok casesScan := by
    obtain rfl | rfl := hn <;> decide
  exact stream_accepts hstream (by decide) hscan shaderHeader

/-- Ten cases fit. -/
theorem ten_cases_within :
    5+wordCount (emitModule casesScan (casesModule 10).code mainName .vertex).2 ≤
      ((casesModule 10).stream shaderHeader).length+slackWords mainName :=
  (output_within_iff (casesModule_accepts (.inl rfl)) .vertex).1.2 (by decide)

/-- With eleven the buffer is overrun. -/
theorem eleven_cases_overrun :
    ScanAccepts ((casesModule 11).stream shaderHeader) mainName (casesModule 11).code casesScan ∧
      ¬5+wordCount (emitModule casesScan (casesModule 11).code mainName .vertex).2 ≤
        ((casesModule 11).stream shaderHeader).length+slackWords mainName := by
  have haccepts := casesModule_accepts (n := 11) (.inr rfl)
  exact ⟨haccepts, (haccepts.fits_iff .vertex).not.2 (by decide)⟩

end Lagfx.Spirv
