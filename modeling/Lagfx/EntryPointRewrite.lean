import Lagfx.SignatureSlack

/-! The metadata rewriter: it drops what only the kernel dialect knows and declares one
function as an entry point behind the memory model. What it makes of any stream. -/
namespace Lagfx.Spirv

structure EntryScan where
  fnId : Nat := 0
  foundFn : Bool := false
  hasShaderCap : Bool := false
deriving DecidableEq, Repr

/-- One instruction of the scanning pass. -/
def EntryScan.insn (entry : List Nat) (s : EntryScan) (i : Insn) : EntryScan :=
  match i.op with
  | .capability =>
    if 1 ≤ i.args.length ∧ i.arg 0 = 1 then { s with hasShaderCap := true } else s
  | .name =>
    if 2 ≤ i.args.length ∧ strEq (bytesOf (i.args.drop 1)) entry then
      { s with fnId := i.arg 0, foundFn := true }
    else s
  | _ => s

def entryScan (entry : List Nat) (insns : List Insn) : EntryScan :=
  insns.foldl (EntryScan.insn entry) {}

/-- The drop list: the capabilities Linkage and Kernel, the decorations CPacked and
LinkageAttributes. -/
def dropsMetadata (i : Insn) : Bool :=
  match i.op with
  | .capability => decide (1 ≤ i.args.length) && (i.arg 0 == 5 || i.arg 0 == 6)
  | .decorate => decide (2 ≤ i.args.length) && (i.arg 1 == 10 || i.arg 1 == 41)
  | .memberDecorate => decide (3 ≤ i.args.length) && (i.arg 2 == 10 || i.arg 2 == 41)
  | _ => false

def entryPointInsn (stage : SpvStage) (fnId : Nat) (entry : List Nat) : Insn :=
  ⟨.entryPoint, stage.code :: fnId :: packString entry⟩

/-- What goes in behind OpMemoryModel. The capability stands after it, not before. -/
def EntryScan.splice (s : EntryScan) (entry : List Nat) (stage : SpvStage) : List Insn :=
  (if s.hasShaderCap then [] else [⟨.capability, [1]⟩]) ++
    entryPointInsn stage s.fnId entry ::
    (if stage = .fragment then [⟨.executionMode, [s.fnId, 7]⟩] else [])

/-- The emitting pass, and whether it has spliced. -/
def emitMetadata (new : List Insn) : Bool → List Insn → Bool × List Insn
  | spliced, [] => (spliced, [])
  | spliced, i :: is =>
    let now := !spliced && i.op == .memoryModel
    let r := emitMetadata new (spliced || now) is
    (r.1, (if dropsMetadata i then [] else [i]) ++ (if now then new else []) ++ r.2)

/-- Words of the output buffer beyond the input's. -/
def maxExtraWords (entry : List Nat) : Nat := 2+3+(entry.length+4)/4+3+64

def rewriteEntryPoint (words entry : List Nat) (stage : SpvStage) (mallocOk : Bool) : SpvResult :=
  if entry.isEmpty ∨ words.getD 0 0 ≠ spvMagic then .status .invalidArg
  else if words.length < 5 then .status .protocol
  else
    match decodeInsns (words.drop 5) with
    | none => .status .protocol
    | some insns =>
      let s := entryScan entry insns
      if !s.foundFn then .status .invalidArg
      else if !mallocOk then .status .outOfMemory
      else
        let r := emitMetadata (s.splice entry stage) false insns
        if words.length+maxExtraWords entry < 5+wordCount r.2 then .overrun
        else if !r.1 then .status .protocol
        else .ok (words.take 5 ++ r.2.flatMap Insn.pack)

/- The scan. -/

def isShaderCap (i : Insn) : Bool :=
  i.op == .capability && decide (1 ≤ i.args.length) && i.arg 0 == 1

theorem entryScan_insn (entry : List Nat) (s : EntryScan) (i : Insn) :
    s.insn entry i =
      { fnId := if namesEntry entry i then i.arg 0 else s.fnId
        foundFn := s.foundFn || namesEntry entry i
        hasShaderCap := s.hasShaderCap || isShaderCap i } := by
  obtain ⟨op, args⟩ := i
  obtain ⟨fn, found, cap⟩ := s
  cases op <;> simp only [EntryScan.insn, namesEntry, isShaderCap] <;> (try split_ifs) <;>
    simp_all

/-- The scan finds the last OpName with the entry's string. -/
theorem entryScan_eq (entry : List Nat) (is : List Insn) :
    entryScan entry is =
      { fnId := (((is.filter (namesEntry entry)).getLast?).map (·.arg 0)).getD 0
        foundFn := is.any (namesEntry entry)
        hasShaderCap := is.any isShaderCap } := by
  induction is using List.reverseRecOn with
  | nil => rfl
  | append_singleton is i ih =>
    have hstep : entryScan entry (is ++ [i]) = (entryScan entry is).insn entry i := by
      simp only [entryScan, List.foldl_append, List.foldl_cons, List.foldl_nil]
    rw [hstep, ih, entryScan_insn, List.filter_append]
    cases hn : namesEntry entry i with
    | true => simp [hn]
    | false => simp [hn]

/- The emitting pass. -/

def keepsMetadata (i : Insn) : Bool := !dropsMetadata i

theorem emitMetadata_spliced (new is : List Insn) :
    emitMetadata new true is = (true, is.filter keepsMetadata) := by
  induction is with
  | nil => rfl
  | cons i is ih =>
    simp only [emitMetadata, Bool.not_true, Bool.false_and, Bool.or_false, ih]
    cases hd : dropsMetadata i <;> simp [keepsMetadata, hd]

theorem emitMetadata_before (new : List Insn) {a : List Insn} (ha : ∀ i ∈ a, i.op ≠ .memoryModel)
    (is : List Insn) :
    emitMetadata new false (a ++ is) =
      ((emitMetadata new false is).1, a.filter keepsMetadata ++ (emitMetadata new false is).2) := by
  induction a with
  | nil => rfl
  | cons i a ih =>
    have hi : (i.op == Op.memoryModel) = false := by simpa using ha i List.mem_cons_self
    have ih' := ih fun j hj => ha j (List.mem_cons_of_mem i hj)
    simp only [List.cons_append, emitMetadata, hi, Bool.not_false, Bool.and_false, Bool.or_false,
      ih']
    cases hd : dropsMetadata i <;> simp [keepsMetadata, hd]

theorem keeps_memoryModel {i : Insn} (hi : i.op = .memoryModel) : keepsMetadata i = true := by
  simp [keepsMetadata, dropsMetadata, hi]

/-- The splice goes in behind the first memory model. -/
theorem emitMetadata_splice {a : List Insn} {mm : Insn} (new b : List Insn)
    (ha : ∀ i ∈ a, i.op ≠ .memoryModel) (hmm : mm.op = .memoryModel) :
    emitMetadata new false (a ++ mm :: b) =
      (true, a.filter keepsMetadata ++ mm :: new ++ b.filter keepsMetadata) := by
  have hd : dropsMetadata mm = false := by simp [dropsMetadata, hmm]
  rw [emitMetadata_before new ha]
  simp [emitMetadata, hmm, hd, emitMetadata_spliced]

/-- Up to the first memory model, if there is one. -/
theorem splitsAtModel (is : List Insn) :
    (∀ i ∈ is, i.op ≠ .memoryModel) ∨
      ∃ a mm b, is = a ++ mm :: b ∧ (∀ i ∈ a, i.op ≠ .memoryModel) ∧ mm.op = .memoryModel := by
  induction is with
  | nil => exact .inl (by simp)
  | cons i is ih =>
    by_cases hi : i.op = .memoryModel
    · exact .inr ⟨[], i, is, rfl, by simp, hi⟩
    · cases ih with
      | inl h =>
        refine .inl fun j hj => ?_
        cases hj with
        | head => exact hi
        | tail _ hj => exact h j hj
      | inr h =>
        obtain ⟨a, mm, b, rfl, ha, hmm⟩ := h
        refine .inr ⟨i :: a, mm, b, rfl, fun j hj => ?_, hmm⟩
        cases hj with
        | head => exact hi
        | tail _ hj => exact ha j hj

theorem emitMetadata_none {new is : List Insn} (h : ∀ i ∈ is, i.op ≠ .memoryModel) :
    emitMetadata new false is = (false, is.filter keepsMetadata) := by
  have hb := emitMetadata_before new h []
  simpa [emitMetadata] using hb

theorem wordCount_filter_le (p : Insn → Bool) (is : List Insn) :
    wordCount (is.filter p) ≤ wordCount is := by
  induction is with
  | nil => exact le_rfl
  | cons i is ih =>
    rw [List.filter_cons, wordCount_cons]
    split
    · rw [wordCount_cons]
      omega
    · omega

theorem entryPointInsn_words (stage : SpvStage) (fnId : Nat) (entry : List Nat) :
    (entryPointInsn stage fnId entry).words = 3+(entry.length+4)/4 := by
  simp only [entryPointInsn, Insn.words, List.length_cons, packString_length]
  omega

theorem wordCount_splice (s : EntryScan) (entry : List Nat) (stage : SpvStage) :
    wordCount (s.splice entry stage) ≤ 2+(3+(entry.length+4)/4)+3 := by
  simp only [EntryScan.splice, wordCount_append, wordCount_cons, entryPointInsn_words]
  have hc : wordCount (if s.hasShaderCap then [] else [⟨.capability, [1]⟩]) ≤ 2 := by
    cases s.hasShaderCap <;> decide
  have hf : wordCount (if stage = .fragment then [⟨.executionMode, [s.fnId, 7]⟩] else []) ≤ 3 := by
    cases stage <;> simp [wordCount, Insn.words]
  omega

theorem wordCount_emitMetadata (new is : List Insn) :
    wordCount (emitMetadata new false is).2 ≤ wordCount is+wordCount new := by
  cases splitsAtModel is with
  | inl h =>
    rw [emitMetadata_none h]
    exact (wordCount_filter_le keepsMetadata is).trans (Nat.le_add_right _ _)
  | inr h =>
    obtain ⟨a, mm, b, rfl, ha, hmm⟩ := h
    rw [emitMetadata_splice new b ha hmm]
    have hla := wordCount_filter_le keepsMetadata a
    have hlb := wordCount_filter_le keepsMetadata b
    simp only [wordCount_append, wordCount_cons]
    omega

/- Framing. -/

theorem Op.code_ofCode (c : Nat) : (Op.ofCode c).code = c := by
  cases hf : Op.table.find? (·.code == c) with
  | none =>
    rw [Op.ofCode, hf]
    rfl
  | some op =>
    have hc := List.find?_some hf
    simpa [Op.ofCode, hf] using hc

theorem Op.ofCode_canonical {c : Nat} (hc : c < 65536) : (Op.ofCode c).Canonical := by
  refine ⟨?_, ?_⟩
  · rw [Op.code_ofCode]
    exact hc
  · rw [Op.code_ofCode]

/-- What framing reads: instructions that pack again, in as many words. -/
theorem decodeLoop_spec {fuel : Nat} {ws : List Nat} {is : List Insn}
    (h : decodeLoop fuel ws = some is) :
    (∀ i ∈ is, i.op.Canonical ∧ i.words < 65536) ∧ wordCount is = ws.length := by
  induction fuel generalizing ws is with
  | zero =>
    cases ws with
    | nil =>
      cases h
      simp [wordCount]
    | cons w ws => cases h
  | succ fuel ih =>
    cases ws with
    | nil =>
      cases h
      simp [wordCount]
    | cons w ws =>
      simp only [decodeLoop] at h
      split at h
      · cases h
      · rename_i hwc
        rw [not_or, Nat.not_lt] at hwc
        split at h
        · cases h
        · rename_i js hjs
          cases h
          obtain ⟨hall, hcount⟩ := ih hjs
          have hlen : (ws.take (w/65536 % 65536-1)).length = w/65536 % 65536-1 := by
            rw [List.length_take]
            omega
          refine ⟨fun i hi => ?_, ?_⟩
          · cases hi with
            | head =>
              refine ⟨Op.ofCode_canonical (Nat.mod_lt _ (by decide)), ?_⟩
              simp only [Insn.words, hlen]
              omega
            | tail _ hi => exact hall i hi
          · rw [wordCount_cons, hcount, List.length_drop]
            simp only [Insn.words, hlen, List.length_cons]
            omega

theorem keeps_decoded {a : List Insn} (h : ∀ i ∈ a, i.op.Canonical ∧ i.words < 65536)
    (p : Insn → Bool) : ∀ i ∈ a.filter p, i.op.Canonical ∧ i.words < 65536 :=
  fun i hi => h i (List.mem_of_mem_filter hi)

/-- Names whose OpEntryPoint has a word count that fits. -/
def FitsInsn (entry : List Nat) : Prop := 3+(entry.length+4)/4 < 65536

instance (entry : List Nat) : Decidable (FitsInsn entry) := inferInstanceAs (Decidable (_ < _))

theorem splice_packs {entry : List Nat} (hfit : FitsInsn entry) (s : EntryScan)
    (stage : SpvStage) :
    ∀ i ∈ s.splice entry stage, i.op.Canonical ∧ i.words < 65536 := by
  intro i hi
  simp only [EntryScan.splice, List.mem_append, List.mem_cons] at hi
  obtain hi | rfl | hi := hi
  · split at hi
    · cases hi
    · obtain rfl := List.mem_singleton.mp hi
      exact ⟨by decide, by decide⟩
  · have hop : Op.entryPoint.Canonical := by decide
    refine ⟨hop, ?_⟩
    rw [entryPointInsn_words]
    exact hfit
  · have hop : Op.executionMode.Canonical := by decide
    split at hi
    · obtain rfl := List.mem_singleton.mp hi
      exact ⟨hop, by simp [Insn.words]⟩
    · cases hi

/-- The id that the last OpName with the string `entry` names. -/
def lastNamed (insns : List Insn) (entry : List Nat) : Option Nat :=
  ((insns.filter (namesEntry entry)).getLast?).map (·.arg 0)

theorem lastNamed_isSome (insns : List Insn) (entry : List Nat) :
    (lastNamed insns entry).isSome = insns.any (namesEntry entry) := by
  cases ha : insns.any (namesEntry entry) with
  | true =>
    obtain ⟨i, hi, hn⟩ := List.any_eq_true.mp ha
    have hne : insns.filter (namesEntry entry) ≠ [] :=
      List.ne_nil_of_mem (List.mem_filter.mpr ⟨hi, hn⟩)
    rw [lastNamed, List.getLast?_eq_getLast_of_ne_nil hne]
    rfl
  | false =>
    have hnil : insns.filter (namesEntry entry) = [] := by
      simpa [List.filter_eq_nil_iff] using ha
    simp [lastNamed, hnil]

theorem entryScan_found {insns : List Insn} {entry : List Nat} {fn : Nat}
    (h : lastNamed insns entry = some fn) :
    entryScan entry insns = ⟨fn, true, insns.any isShaderCap⟩ := by
  have hany : insns.any (namesEntry entry) = true := by
    rw [← lastNamed_isSome, h]
    rfl
  have hfn : (((insns.filter (namesEntry entry)).getLast?).map (·.arg 0)).getD 0 = fn := by
    rw [lastNamed] at h
    rw [h]
    rfl
  rw [entryScan_eq, hany, hfn]

/-- Words the rewriter emits fit its buffer. -/
theorem emitMetadata_fits (entry : List Nat) {words : List Nat} {insns : List Insn}
    (stage : SpvStage)
    (hlen : 5 ≤ words.length) (hdec : decodeInsns (words.drop 5) = some insns) :
    5+wordCount (emitMetadata ((entryScan entry insns).splice entry stage) false insns).2 ≤
      words.length+maxExtraWords entry := by
  have hout := wordCount_emitMetadata ((entryScan entry insns).splice entry stage) insns
  have hnew := wordCount_splice (entryScan entry insns) entry stage
  have hin := (decodeLoop_spec hdec).2
  rw [List.length_drop] at hin
  simp only [maxExtraWords]
  omega

/-- The rewriter as a function of the framed instructions. -/
theorem rewriteEntryPoint_framed {words entry : List Nat} {insns : List Insn} {fn : Nat}
    (stage : SpvStage) (hentry : entry ≠ []) (hmagic : words.getD 0 0 = spvMagic)
    (hlen : 5 ≤ words.length) (hdec : decodeInsns (words.drop 5) = some insns)
    (hname : lastNamed insns entry = some fn) :
    rewriteEntryPoint words entry stage true =
      let new := (EntryScan.mk fn true (insns.any isShaderCap)).splice entry stage
      if insns.any (·.op == .memoryModel) then
        .ok (words.take 5 ++ (emitMetadata new false insns).2.flatMap Insn.pack)
      else .status .protocol := by
  have hfits := emitMetadata_fits entry stage hlen hdec
  have hem : entry.isEmpty = false := by simpa using hentry
  have hge : ¬ words.length < 5 := Nat.not_lt.mpr hlen
  rw [entryScan_found hname] at hfits
  simp only [rewriteEntryPoint, hem, hmagic, hge, hdec, entryScan_found hname]
  simp only [Bool.false_eq_true, ne_eq, not_true_eq_false, or_self, if_false, Bool.not_true,
    Nat.not_lt.mpr hfits]
  cases splitsAtModel insns with
  | inl h =>
    have hany : insns.any (·.op == Op.memoryModel) = false := by simpa using h
    simp [emitMetadata_none h, hany]
  | inr h =>
    obtain ⟨a, mm, b, rfl, ha, hmm⟩ := h
    have hany : (a ++ mm :: b).any (·.op == Op.memoryModel) = true := by simp [hmm]
    simp [emitMetadata_splice _ b ha hmm, hany]

/-- What a rewrite that succeeds was given. -/
theorem rewriteEntryPoint_ok {words entry out : List Nat} {stage : SpvStage} {mallocOk : Bool}
    (h : rewriteEntryPoint words entry stage mallocOk = .ok out) :
    mallocOk = true ∧ entry ≠ [] ∧ words.getD 0 0 = spvMagic ∧ 5 ≤ words.length ∧
      ∃ insns fn, decodeInsns (words.drop 5) = some insns ∧ lastNamed insns entry = some fn := by
  simp only [rewriteEntryPoint] at h
  split at h
  · cases h
  · rename_i hguard
    rw [not_or, not_not] at hguard
    split at h
    · cases h
    · rename_i hlen
      cases hdec : decodeInsns (words.drop 5) with
      | none =>
        rw [hdec] at h
        cases h
      | some insns =>
        rw [hdec] at h
        simp only at h
        split at h
        · cases h
        · rename_i hfound
          split at h
          · cases h
          · rename_i hmalloc
            have hany : (lastNamed insns entry).isSome = true := by
              rw [lastNamed_isSome]
              simpa [entryScan_eq] using hfound
            obtain ⟨fn, hfn⟩ := Option.isSome_iff_exists.mp hany
            exact ⟨by simpa using hmalloc, by simpa using hguard.1, hguard.2,
              Nat.not_lt.mp hlen, insns, fn, rfl, hfn⟩

theorem rewriteEntryPoint_bounded (words entry : List Nat) (stage : SpvStage) (mallocOk : Bool) :
    rewriteEntryPoint words entry stage mallocOk ≠ .overrun := by
  simp only [rewriteEntryPoint]
  split
  · simp
  · split
    · simp
    · rename_i hlen
      split
      · simp
      · rename_i insns hdec
        split
        · simp
        · split
          · simp
          · have hfits := emitMetadata_fits entry stage (Nat.not_lt.mp hlen) hdec
            rw [if_neg (Nat.not_lt.mpr hfits)]
            split <;> simp

/-- For every stream and name the rewriter stays in its buffer. When it succeeds, its output
has the header of the input and, if the name fits one instruction, frames as the input's
instructions but for the drop list, with the new ones once, behind the first memory model. -/
theorem rewriteEntryPoint_stream (words entry : List Nat) (stage : SpvStage) (mallocOk : Bool) :
    rewriteEntryPoint words entry stage mallocOk ≠ .overrun ∧
      ∀ out, rewriteEntryPoint words entry stage mallocOk = .ok out →
        ∃ a mm b fn, decodeInsns (words.drop 5) = some (a ++ mm :: b) ∧
          (∀ i ∈ a, i.op ≠ .memoryModel) ∧ mm.op = .memoryModel ∧
          lastNamed (a ++ mm :: b) entry = some fn ∧ out.take 5 = words.take 5 ∧
          (FitsInsn entry → decodeInsns (out.drop 5) = some (a.filter keepsMetadata ++ mm ::
            (if (a ++ mm :: b).any isShaderCap then [] else [⟨.capability, [1]⟩]) ++
            entryPointInsn stage fn entry ::
            (if stage = .fragment then [⟨.executionMode, [fn, 7]⟩] else []) ++
            b.filter keepsMetadata)) := by
  refine ⟨rewriteEntryPoint_bounded words entry stage mallocOk, fun out hok => ?_⟩
  obtain ⟨rfl, hentry, hmagic, hlen, insns, fn, hdec, hname⟩ := rewriteEntryPoint_ok hok
  rw [rewriteEntryPoint_framed stage hentry hmagic hlen hdec hname] at hok
  simp only at hok
  split at hok
  · rename_i hany
    cases splitsAtModel insns with
    | inl h =>
      have hnone : insns.any (·.op == Op.memoryModel) = false := by simpa using h
      rw [hnone] at hany
      cases hany
    | inr h =>
      obtain ⟨a, mm, b, rfl, ha, hmm⟩ := h
      rw [emitMetadata_splice _ b ha hmm] at hok
      cases hok
      have h5 : (words.take 5).length = 5 := by
        rw [List.length_take]
        omega
      refine ⟨a, mm, b, fn, hdec, ha, hmm, hname, List.take_left' h5, fun hfit => ?_⟩
      have hin := (decodeLoop_spec hdec).1
      rw [List.drop_left' h5]
      refine (decodeLoop_pack ?_ _ le_rfl).trans ?_
      · intro i hi
        simp only [List.mem_append, List.mem_cons] at hi
        obtain (hi | rfl | hi) | hi := hi
        · exact hin i (List.mem_append_left _ (List.mem_of_mem_filter hi))
        · exact hin i (by simp)
        · exact splice_packs hfit _ _ i hi
        · exact hin i (List.mem_append_right _
            (List.mem_cons_of_mem _ (List.mem_of_mem_filter hi)))
      · simp only [EntryScan.splice, List.append_assoc, List.cons_append]
  · cases hok

/-- OpCapability Kernel, the memory model and the name of function 9. -/
def namedStream : List Nat :=
  [spvMagic, 0x10000, 0, 10, 0, 131089, 6, 196622, 0, 1, 262149, 9, 1852399981, 0]

theorem namedStream_rewritten :
    rewriteEntryPoint namedStream mainName .fragment true =
      .ok [spvMagic, 0x10000, 0, 10, 0, 196622, 0, 1, 131089, 1, 327695, 4, 9, 1852399981, 0,
        196624, 9, 7, 262149, 9, 1852399981, 0] := by
  decide

theorem rewriteEntryPoint_stream_main :
    ∃ out a mm b fn, rewriteEntryPoint namedStream mainName .fragment true = .ok out ∧
      decodeInsns (namedStream.drop 5) = some (a ++ mm :: b) ∧
      lastNamed (a ++ mm :: b) mainName = some fn ∧ out.take 5 = namedStream.take 5 ∧
      decodeInsns (out.drop 5) = some (a.filter keepsMetadata ++ mm ::
        (if (a ++ mm :: b).any isShaderCap then [] else [⟨.capability, [1]⟩]) ++
        entryPointInsn .fragment fn mainName :: [⟨.executionMode, [fn, 7]⟩] ++
        b.filter keepsMetadata) := by
  obtain ⟨-, hall⟩ := rewriteEntryPoint_stream namedStream mainName .fragment true
  obtain ⟨a, mm, b, fn, hdec, -, -, hname, hhead, hframe⟩ := hall _ namedStream_rewritten
  exact ⟨_, a, mm, b, fn, namedStream_rewritten, hdec, hname, hhead, hframe (by decide)⟩

end Lagfx.Spirv
