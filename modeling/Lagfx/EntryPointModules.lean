import Lagfx.EntryPointRewrite
import Mathlib.Data.List.Perm.Basic

/-! A module rewritten once for each of its stages: the rewrites add up, and neither what
they drop nor what they add takes part in a run. -/
namespace Lagfx.Spirv

structure EntryRequest where
  name : List Nat
  stage : SpvStage
deriving DecidableEq, Repr

/-- One rewrite for each stage, the output of one the input of the next. -/
def rewriteEntryPoints (words : List Nat) : List EntryRequest → SpvResult
  | [] => .ok words
  | r :: rs =>
    match rewriteEntryPoint words r.name r.stage true with
    | .ok out => rewriteEntryPoints out rs
    | e => e

def Module.withEntryPoint (m : Module) (r : EntryRequest) : Module :=
  { m with
    globals := (emitMetadata ((entryScan r.name m.code).splice r.name r.stage) false m.globals).2 }

def Module.withEntryPoints (m : Module) (rs : List EntryRequest) : Module :=
  rs.foldl Module.withEntryPoint m

def Module.entryPoints (m : Module) : List Insn := m.globals.filter (·.op == .entryPoint)

section Lists
variable {new a b : List Insn} {mm : Insn} {p : Insn → Bool}

theorem filter_keeps (hp : ∀ i, p i = true → keepsMetadata i = true) (is : List Insn) :
    (is.filter keepsMetadata).filter p = is.filter p := by
  rw [List.filter_filter]
  refine List.filter_congr fun i _ => ?_
  cases hi : p i with
  | true => simp [hp i hi]
  | false => rfl

/-- A kind of instruction that is never dropped nor put in stands as it stood. -/
theorem filter_spliced (hp : ∀ i, p i = true → keepsMetadata i = true)
    (hnew : ∀ i ∈ new, p i = false) :
    (a.filter keepsMetadata ++ mm :: new ++ b.filter keepsMetadata).filter p =
      (a ++ mm :: b).filter p := by
  have hn : new.filter p = [] := by simpa [List.filter_eq_nil_iff] using hnew
  cases hm : p mm <;> simp [List.filter_append, hm, hn, filter_keeps hp]

theorem find_spliced (hp : ∀ i, p i = true → keepsMetadata i = true)
    (hnew : ∀ i ∈ new, p i = false) :
    (a.filter keepsMetadata ++ mm :: new ++ b.filter keepsMetadata).find? p =
      (a ++ mm :: b).find? p := by
  rw [← List.head?_filter, ← List.head?_filter, filter_spliced hp hnew]

theorem dropsMetadata_result (g : Grammar) {i : Insn} (h : keepsMetadata i = false) :
    i.result g = none := by
  obtain ⟨op, args⟩ := i
  cases op <;> first | rfl | simp [keepsMetadata, dropsMetadata] at h

theorem results_keeps (g : Grammar) (is : List Insn) :
    results g (is.filter keepsMetadata) = results g is := by
  simp only [results]
  induction is with
  | nil => rfl
  | cons i is ih =>
    rw [List.filter_cons]
    cases hk : keepsMetadata i with
    | true => simp [List.filterMap_cons, ih]
    | false => simp [dropsMetadata_result g hk, ih]

end Lists

/-- No instruction of a function is one the rewriter looks for. -/
theorem Fn.Laid.code_op {g : Grammar} {m : Module} {f : Fn} (hf : f.Laid g m) :
    ∀ i ∈ f.code, keepsMetadata i = true ∧ i.op ≠ .memoryModel ∧ isShaderCap i = false := by
  have hlook : ∀ i : Insn, i.op ≠ .capability → i.op ≠ .decorate → i.op ≠ .memberDecorate →
      i.op ≠ .memoryModel →
      keepsMetadata i = true ∧ i.op ≠ .memoryModel ∧ isShaderCap i = false := by
    intro i hc hd hmd hmm
    obtain ⟨op, args⟩ := i
    cases op <;> first | contradiction | simp [keepsMetadata, dropsMetadata, isShaderCap]
  have hline : ∀ i : Insn, i.op.isLine = true →
      keepsMetadata i = true ∧ i.op ≠ .memoryModel ∧ isShaderCap i = false := by
    intro i hi
    have hne : ∀ op : Op, op.isLine = false → i.op ≠ op := by
      intro op hop he
      rw [he, hop] at hi
      cases hi
    exact hlook i (hne _ rfl) (hne _ rfl) (hne _ rfl) (hne _ rfl)
  have hblock : ∀ i : Insn, i.op.inBlock = true →
      keepsMetadata i = true ∧ i.op ≠ .memoryModel ∧ isShaderCap i = false := by
    intro i hi
    have hne : ∀ op : Op, op.inBlock = false → i.op ≠ op := by
      intro op hop he
      rw [he, hop] at hi
      cases hi
    exact hlook i (hne _ rfl) (hne _ rfl) (hne _ rfl) (hne _ rfl)
  intro i hi
  simp only [Fn.code, List.mem_append, List.mem_cons, List.mem_flatMap] at hi
  obtain ((rfl | hi) | ⟨b, hb, hi⟩) | rfl | hi := hi
  · exact hlook _ (by simp [Fn.head]) (by simp [Fn.head]) (by simp [Fn.head]) (by simp [Fn.head])
  · cases hf.header i hi with
    | inl h => exact hlook _ (by simp [h]) (by simp [h]) (by simp [h]) (by simp [h])
    | inr h => exact hline i h.1
  · cases hi with
    | head => exact hlook _ (by simp) (by simp) (by simp) (by simp)
    | tail _ hi => exact hblock i (hf.insns i (List.mem_flatMap.mpr ⟨b, hb, hi⟩))
  · exact hlook _ (by simp) (by simp) (by simp) (by simp)
  · exact hline i (hf.trail i hi).1

section Modules
variable {g : Grammar} {m : Module} {r : EntryRequest}

def Module.fnCode (m : Module) : List Insn := m.fns.flatMap Fn.code

theorem Module.Kernel.fnCode_op (hm : m.Kernel g) :
    ∀ i ∈ m.fnCode, keepsMetadata i = true ∧ i.op ≠ .memoryModel ∧ isShaderCap i = false := by
  intro i hi
  obtain ⟨f, hf, hi⟩ := List.mem_flatMap.mp hi
  exact (hm.fns f hf).code_op i hi

theorem Module.Kernel.fnCode_keeps (hm : m.Kernel g) :
    m.fnCode.filter keepsMetadata = m.fnCode :=
  List.filter_eq_self.mpr fun i hi => (hm.fnCode_op i hi).1

theorem Module.Kernel.splits (hm : m.Kernel g) :
    ∃ a mm b, m.globals = a ++ mm :: b ∧ (∀ i ∈ a, i.op ≠ .memoryModel) ∧
      mm.op = .memoryModel := by
  cases splitsAtModel m.globals with
  | inl h =>
    have hnil : m.globals.filter (·.op == .memoryModel) = [] := by
      simpa [List.filter_eq_nil_iff] using h
    have hone := hm.memoryModel
    rw [hnil] at hone
    cases hone
  | inr h => exact h

/-- What is put into the module for the request. -/
def Module.newFor (m : Module) (r : EntryRequest) : List Insn :=
  (entryScan r.name m.code).splice r.name r.stage

theorem withEntryPoint_globals {a b : List Insn} {mm : Insn} (hglob : m.globals = a ++ mm :: b)
    (ha : ∀ i ∈ a, i.op ≠ .memoryModel) (hmm : mm.op = .memoryModel) :
    (m.withEntryPoint r).globals =
      a.filter keepsMetadata ++ mm :: m.newFor r ++ b.filter keepsMetadata := by
  rw [Module.withEntryPoint, hglob, emitMetadata_splice _ b ha hmm]
  rfl

theorem withEntryPoint_code {a b : List Insn} {mm : Insn} (hglob : m.globals = a ++ mm :: b)
    (ha : ∀ i ∈ a, i.op ≠ .memoryModel) (hmm : mm.op = .memoryModel) :
    (m.withEntryPoint r).code =
      a.filter keepsMetadata ++ mm :: m.newFor r ++ (b.filter keepsMetadata ++ m.fnCode) := by
  rw [Module.code, withEntryPoint_globals hglob ha hmm]
  simp [Module.withEntryPoint, Module.fnCode]

/-- One rewrite of the stream of a module. -/
theorem rewriteEntryPoint_module (hm : m.Kernel g) (hname : r.name ≠ []) (h : StreamHeader) :
    rewriteEntryPoint (m.stream h) r.name r.stage true =
      if (m.entryId r.name).isSome then .ok ((m.withEntryPoint r).stream h)
      else .status .invalidArg := by
  have hdec : decodeInsns ((m.stream h).drop 5) = some m.code := by
    simp only [Module.stream, List.cons_append, List.nil_append, List.drop_succ_cons,
      List.drop_zero]
    exact decodeLoop_pack hm.stream _ le_rfl
  have hlen : 5 ≤ (m.stream h).length := by
    simp only [Module.stream, List.length_append, List.length_cons, List.length_nil]
    omega
  have hmagic : (m.stream h).getD 0 0 = spvMagic := rfl
  cases hid : m.entryId r.name with
  | none =>
    have hany : m.code.any (namesEntry r.name) = false := by
      rw [← lastNamed_isSome]
      exact congrArg Option.isSome hid
    have hem : r.name.isEmpty = false := by simpa using hname
    have hge : ¬ (m.stream h).length < 5 := Nat.not_lt.mpr hlen
    simp [rewriteEntryPoint, hmagic, hge, hdec, entryScan_eq, hany, hem]
  | some fn =>
    rw [rewriteEntryPoint_framed r.stage hname hmagic hlen hdec hid]
    obtain ⟨a, mm, b, hglob, ha, hmm⟩ := hm.splits
    have hcode : m.code = a ++ mm :: (b ++ m.fnCode) := by
      rw [Module.code, hglob]
      simp [Module.fnCode]
    have hany : m.code.any (·.op == Op.memoryModel) = true := by simp [hcode, hmm]
    have hnew : m.newFor r =
        (EntryScan.mk fn true (m.code.any isShaderCap)).splice r.name r.stage := by
      rw [Module.newFor, entryScan_found hid]
    simp only [hany, if_true, Option.isSome_some, ← hnew]
    rw [hcode, emitMetadata_splice _ _ ha hmm, List.filter_append, hm.fnCode_keeps,
      ← withEntryPoint_code hglob ha hmm]
    rfl

theorem mem_newFor {i : Insn} {fn : Nat} (hid : m.entryId r.name = some fn)
    (hi : i ∈ m.newFor r) :
    (i = ⟨.capability, [1]⟩ ∧ m.code.any isShaderCap = false) ∨
      i = entryPointInsn r.stage fn r.name ∨ i = ⟨.executionMode, [fn, 7]⟩ := by
  rw [Module.newFor, entryScan_found hid, EntryScan.splice] at hi
  simp only [List.mem_append, List.mem_cons] at hi
  obtain hi | hi | hi := hi
  · split at hi
    · cases hi
    · rename_i hcap
      exact .inl ⟨List.mem_singleton.mp hi, by simpa using hcap⟩
  · exact .inr (.inl hi)
  · split at hi
    · exact .inr (.inr (List.mem_singleton.mp hi))
    · cases hi

/-- Operations of what is put in. -/
theorem newFor_op {i : Insn} {fn : Nat} (hid : m.entryId r.name = some fn)
    (hi : i ∈ m.newFor r) :
    (i.op = .capability ∨ i.op = .entryPoint ∨ i.op = .executionMode) ∧
      keepsMetadata i = true := by
  obtain ⟨rfl, -⟩ | rfl | rfl := mem_newFor hid hi
  · exact ⟨.inl rfl, rfl⟩
  · exact ⟨.inr (.inl rfl), rfl⟩
  · exact ⟨.inr (.inr rfl), rfl⟩

/-- Declarations of a kind neither dropped nor put in. -/
theorem withEntryPoint_filter (hm : m.Kernel g) {fn : Nat} (hid : m.entryId r.name = some fn)
    {p : Insn → Bool} (hp : ∀ i, p i = true → keepsMetadata i = true)
    (hnew : ∀ i : Insn, i.op = .capability ∨ i.op = .entryPoint ∨ i.op = .executionMode →
      p i = false) :
    (m.withEntryPoint r).globals.filter p = m.globals.filter p := by
  obtain ⟨a, mm, b, hglob, ha, hmm⟩ := hm.splits
  rw [withEntryPoint_globals hglob ha hmm, hglob]
  exact filter_spliced hp fun i hi => hnew i (newFor_op hid hi).1

theorem withEntryPoint_filterCode (hm : m.Kernel g) {fn : Nat}
    (hid : m.entryId r.name = some fn) {p : Insn → Bool}
    (hp : ∀ i, p i = true → keepsMetadata i = true)
    (hnew : ∀ i : Insn, i.op = .capability ∨ i.op = .entryPoint ∨ i.op = .executionMode →
      p i = false) :
    (m.withEntryPoint r).code.filter p = m.code.filter p := by
  rw [Module.code, Module.code, List.filter_append, List.filter_append,
    withEntryPoint_filter hm hid hp hnew]
  rfl

theorem withEntryPoint_find (hm : m.Kernel g) {fn : Nat} (hid : m.entryId r.name = some fn)
    {p : Insn → Bool} (hp : ∀ i, p i = true → keepsMetadata i = true)
    (hnew : ∀ i : Insn, i.op = .capability ∨ i.op = .entryPoint ∨ i.op = .executionMode →
      p i = false) :
    (m.withEntryPoint r).globals.find? p = m.globals.find? p := by
  rw [← List.head?_filter, ← List.head?_filter, withEntryPoint_filter hm hid hp hnew]

theorem keeps_of_op {i : Insn} (hc : i.op ≠ .capability) (hd : i.op ≠ .decorate)
    (hmd : i.op ≠ .memberDecorate) : keepsMetadata i = true := by
  obtain ⟨op, args⟩ := i
  cases op <;> first | contradiction | rfl

/-- An operation the rewriter passes by. -/
theorem plain_op (op : Op) (hc : op ≠ .capability) (hd : op ≠ .decorate)
    (hmd : op ≠ .memberDecorate) (he : op ≠ .entryPoint) (hx : op ≠ .executionMode)
    (q : Insn → Bool) :
    (∀ i, (i.op == op && q i) = true → keepsMetadata i = true) ∧
      ∀ i : Insn, i.op = .capability ∨ i.op = .entryPoint ∨ i.op = .executionMode →
        (i.op == op && q i) = false := by
  refine ⟨fun i hi => ?_, fun i hi => ?_⟩
  · rw [Bool.and_eq_true, beq_iff_eq] at hi
    obtain ⟨hop, -⟩ := hi
    subst hop
    exact keeps_of_op hc hd hmd
  · have hne : (i.op == op) = false := by
      rw [beq_eq_false_iff_ne]
      obtain h | h | h := hi
      · rw [h]
        exact hc.symm
      · rw [h]
        exact he.symm
      · rw [h]
        exact hx.symm
    rw [hne, Bool.false_and]

theorem withEntryPoint_entryId (hm : m.Kernel g) {fn : Nat} (hid : m.entryId r.name = some fn)
    (entry : List Nat) : (m.withEntryPoint r).entryId entry = m.entryId entry := by
  obtain ⟨hp, hnew⟩ := plain_op .name (by simp) (by simp) (by simp) (by simp) (by simp)
    fun i => decide (2 ≤ i.args.length) && strEq (bytesOf (i.args.drop 1)) entry
  have hfun : namesEntry entry = fun i => i.op == .name &&
      (decide (2 ≤ i.args.length) && strEq (bytesOf (i.args.drop 1)) entry) := by
    funext i
    rw [namesEntry, Bool.and_assoc]
  rw [Module.entryId, Module.entryId, hfun, withEntryPoint_filterCode hm hid hp hnew]

theorem newFor_results {fn : Nat} (hid : m.entryId r.name = some fn) :
    results g (m.newFor r) = [] := by
  simp only [results, List.filterMap_eq_nil_iff]
  intro i hi
  obtain ⟨rfl, -⟩ | rfl | rfl := mem_newFor hid hi <;> rfl

theorem withEntryPoint_results (hm : m.Kernel g) {fn : Nat}
    (hid : m.entryId r.name = some fn) :
    results g (m.withEntryPoint r).globals = results g m.globals := by
  obtain ⟨a, mm, b, hglob, ha, hmm⟩ := hm.splits
  rw [withEntryPoint_globals hglob ha hmm, hglob]
  have hn := newFor_results (g := g) hid
  have hka := results_keeps g a
  have hkb := results_keeps g b
  simp only [results] at hn hka hkb ⊢
  simp only [List.filterMap_append, List.filterMap_cons, hn, hka, hkb, List.append_nil]
  cases mm.result g <;> simp

/-- The last OpName with the string names an id of the module. -/
theorem entryId_mem (hm : m.Kernel g) {entry : List Nat} {fn : Nat}
    (hid : m.entryId entry = some fn) : fn ∈ m.defs g := by
  obtain ⟨i, hi, rfl⟩ := Option.map_eq_some_iff.mp hid
  obtain ⟨hmem, hn⟩ := List.mem_filter.mp (List.mem_of_getLast? hi)
  simp only [namesEntry, Bool.and_eq_true, beq_iff_eq, decide_eq_true_eq] at hn
  obtain ⟨⟨hop, hlen⟩, -⟩ := hn
  refine hm.ids.closed i hmem _ ?_
  obtain ⟨op, args⟩ := i
  cases args with
  | nil => simp at hlen
  | cons x args =>
    simp only at hop
    simp [Insn.uses, hop, Insn.arg]

theorem newFor_uses (hm : m.Kernel g) {fn : Nat} (hid : m.entryId r.name = some fn)
    (hstr : CString r.name) : ∀ i ∈ m.newFor r, ∀ x ∈ i.uses g, x ∈ m.defs g := by
  intro i hi x hx
  obtain ⟨rfl, -⟩ | rfl | rfl := mem_newFor hid hi
  · simp [Insn.uses] at hx
  · have hpack : afterString (packString r.name) = [] := by
      simpa using afterString_pack hstr.2 []
    simp only [entryPointInsn, Insn.uses, List.drop_succ_cons, List.drop_zero, hpack,
      List.append_nil, List.take_succ_cons, List.take_zero, List.mem_singleton] at hx
    rw [hx]
    exact entryId_mem hm hid
  · simp only [Insn.uses, List.take_succ_cons, List.take_zero, List.mem_singleton] at hx
    rw [hx]
    exact entryId_mem hm hid

theorem withEntryPoint_defs (hm : m.Kernel g) {fn : Nat} (hid : m.entryId r.name = some fn) :
    (m.withEntryPoint r).defs g = m.defs g := by
  rw [Module.defs, Module.defs, withEntryPoint_results hm hid]
  rfl

/-- Instructions of the rewritten module. -/
theorem mem_withEntryPoint (hm : m.Kernel g) {i : Insn} (hi : i ∈ (m.withEntryPoint r).globals) :
    i ∈ m.globals ∧ keepsMetadata i = true ∨ i ∈ m.newFor r := by
  obtain ⟨a, mm, b, hglob, ha, hmm⟩ := hm.splits
  rw [withEntryPoint_globals hglob ha hmm] at hi
  simp only [List.mem_append, List.mem_cons, List.mem_filter] at hi
  rw [hglob]
  obtain (hi | rfl | hi) | hi := hi
  · exact .inl ⟨List.mem_append_left _ hi.1, hi.2⟩
  · exact .inl ⟨by simp, keeps_memoryModel hmm⟩
  · exact .inr hi
  · exact .inl ⟨List.mem_append_right _ (List.mem_cons_of_mem _ hi.1), hi.2⟩

theorem mem_withEntryPointCode (hm : m.Kernel g) {i : Insn}
    (hi : i ∈ (m.withEntryPoint r).code) :
    i ∈ m.code ∧ keepsMetadata i = true ∨ i ∈ m.newFor r := by
  rw [Module.code, List.mem_append] at hi
  cases hi with
  | inl hi =>
    cases mem_withEntryPoint hm hi with
    | inl h => exact .inl ⟨List.mem_append_left _ h.1, h.2⟩
    | inr h => exact .inr h
  | inr hi => exact .inl ⟨List.mem_append_right _ hi, (hm.fnCode_op i hi).1⟩

/-- A declaration that the rewriter passes by is still there. -/
theorem withEntryPoint_mem (hm : m.Kernel g) {i : Insn} (hi : i ∈ m.globals)
    (hk : keepsMetadata i = true) : i ∈ (m.withEntryPoint r).globals := by
  obtain ⟨a, mm, b, hglob, ha, hmm⟩ := hm.splits
  rw [withEntryPoint_globals hglob ha hmm]
  rw [hglob, List.mem_append, List.mem_cons] at hi
  simp only [List.mem_append, List.mem_cons, List.mem_filter]
  tauto

/-- The declarations of types that the layout of a module asks for. -/
theorem withEntryPoint_types (hm : m.Kernel g) {fn : Nat} (hid : m.entryId r.name = some fn) :
    (m.withEntryPoint r).isPointerType = m.isPointerType ∧
      (m.withEntryPoint r).pointee = m.pointee ∧
      (m.withEntryPoint r).elementType = m.elementType := by
  have hfind : ∀ (op : Op) (t : Nat), op ≠ .capability → op ≠ .decorate → op ≠ .memberDecorate →
      op ≠ .entryPoint → op ≠ .executionMode →
      (m.withEntryPoint r).globals.find? (fun i => i.op == op && i.arg 0 == t) =
        m.globals.find? fun i => i.op == op && i.arg 0 == t := by
    intro op t hc hd hmd he hx
    obtain ⟨hp, hnew⟩ := plain_op op hc hd hmd he hx fun i => i.arg 0 == t
    exact withEntryPoint_find hm hid hp hnew
  refine ⟨funext fun t => ?_, funext fun t => ?_, funext fun t => ?_⟩
  · simp only [Module.isPointerType, ← List.isSome_find?]
    rw [hfind .typePointer t (by simp) (by simp) (by simp) (by simp) (by simp)]
  · simp only [Module.pointee]
    rw [hfind .typePointer t (by simp) (by simp) (by simp) (by simp) (by simp)]
  · simp only [Module.elementType]
    rw [hfind .typeArray t (by simp) (by simp) (by simp) (by simp) (by simp)]

theorem withEntryPoint_typeOf (hm : m.Kernel g) {fn : Nat} (hid : m.entryId r.name = some fn) :
    (m.withEntryPoint r).typeOf g = m.typeOf g := by
  funext x
  have hp : ∀ i : Insn, (i.result g == some x) = true → keepsMetadata i = true := by
    intro i hi
    by_contra hk
    rw [dropsMetadata_result g (by simpa using hk)] at hi
    cases hi
  have hnew : ∀ i : Insn, i.op = .capability ∨ i.op = .entryPoint ∨ i.op = .executionMode →
      (i.result g == some x) = false := by
    intro i hi
    have hr : i.result g = none := by
      obtain h | h | h := hi <;> rw [Insn.result, h]
    rw [hr]
    rfl
  rw [Module.typeOf, Module.typeOf, ← List.head?_filter, ← List.head?_filter,
    withEntryPoint_filterCode hm hid hp hnew]

theorem withEntryPoint_laid (hm : m.Kernel g) {fn : Nat} (hid : m.entryId r.name = some fn)
    {f : Fn} (hf : f.Laid g m) : f.Laid g (m.withEntryPoint r) := by
  have hres := withEntryPoint_results (g := g) hm hid
  exact {
    header := hf.header
    insns := hf.insns
    ends := hf.ends
    inner := hf.inner
    locals := fun i hi hv x hx => by
      rw [hres]
      exact hf.locals i hi hv x hx
    trail := hf.trail
    type := withEntryPoint_mem hm hf.type rfl
    types := fun t ht => by
      rw [hres]
      exact hf.types t ht }

/-- A rewrite leaves a well-formed module. -/
theorem withEntryPoint_kernel (hm : m.Kernel g) {fn : Nat} (hid : m.entryId r.name = some fn)
    (hstr : CString r.name) (hfit : FitsInsn r.name) : (m.withEntryPoint r).Kernel g := by
  have hdefs := withEntryPoint_defs hm hid
  have hids : (m.withEntryPoint r).ValidIds g := {
    nodup := by
      rw [hdefs]
      exact hm.ids.nodup
    below := by
      rw [hdefs]
      exact hm.ids.below
    closed := fun i hi x hx => by
      rw [hdefs]
      cases mem_withEntryPointCode hm hi with
      | inl h => exact hm.ids.closed i h.1 x hx
      | inr h => exact newFor_uses hm hid hstr i h x hx
    ordered := hm.ids.ordered }
  have hmodel : (m.withEntryPoint r).globals.filter (·.op == .memoryModel) =
      m.globals.filter (·.op == .memoryModel) := by
    obtain ⟨hp, hnew⟩ := plain_op .memoryModel (by simp) (by simp) (by simp) (by simp) (by simp)
      fun _ => true
    simpa using withEntryPoint_filter hm hid hp hnew
  obtain ⟨hptr, hpointee, helem⟩ := withEntryPoint_types (r := r) hm hid
  exact {
    ids := hids
    globals := fun i hi => by
      cases mem_withEntryPoint hm hi with
      | inl h => exact hm.globals i h.1
      | inr h => obtain ⟨h | h | h, -⟩ := newFor_op hid h <;> rw [h] <;> rfl
    memoryModel := by
      rw [hmodel]
      exact hm.memoryModel
    fns := fun f hf => withEntryPoint_laid hm hid (hm.fns f hf)
    arity := fun i hi => by
      cases mem_withEntryPointCode hm hi with
      | inl h => exact hm.arity i h.1
      | inr h => obtain ⟨h | h | h, -⟩ := newFor_op hid h <;> simp [Insn.arity, h]
    uints := fun i hi hop ht => by
      cases mem_withEntryPoint hm hi with
      | inl h =>
        refine hm.uints i h.1 hop ?_
        cases mem_withEntryPoint hm ht with
        | inl ht => exact ht.1
        | inr ht => obtain ⟨ht | ht | ht, -⟩ := newFor_op hid ht <;> cases ht
      | inr h => obtain ⟨h | h | h, -⟩ := newFor_op hid h <;> rw [hop] at h <;> cases h
    casts := fun f hf i hi hop ht => by
      rw [hptr] at ht
      have hc := hm.casts f hf i hi hop ht
      rw [Module.CastsToElement] at hc ⊢
      rw [hpointee, helem, withEntryPoint_typeOf hm hid]
      exact hc
    limit := hm.limit
    stream := fun i hi => by
      cases mem_withEntryPointCode hm hi with
      | inl h => exact hm.stream i h.1
      | inr h => exact splice_packs hfit _ _ i h }

end Modules

section Runs
variable {V Mem : Type} {g : Grammar} {I : Interp V Mem} {m m' : Module}

/-- A run looks at the functions of a module only. -/
theorem callFn_of_runFrom {iface : List Nat} {ρ₀ : Nat → V} {fuel : Nat} (hfns : m'.fns = m.fns)
    (hrun : ∀ f l st, runFrom g I m' iface ρ₀ fuel f l st = runFrom g I m iface ρ₀ fuel f l st) :
    callFn g I m' iface ρ₀ fuel = callFn g I m iface ρ₀ fuel := by
  funext id args mem io
  simp only [callFn, hfns]
  cases m.fns.find? (·.id == id) with
  | none => rfl
  | some h =>
    simp only
    cases h.blocks.head? with
    | none => rfl
    | some b => exact hrun _ _ _

theorem runFrom_fns (hfns : m'.fns = m.fns) (iface : List Nat) (ρ₀ : Nat → V) (fuel : Nat) :
    ∀ f l st, runFrom g I m' iface ρ₀ fuel f l st = runFrom g I m iface ρ₀ fuel f l st := by
  induction fuel with
  | zero =>
    intro f l st
    rfl
  | succ fuel ih =>
    intro f l st
    have hnext : runFrom g I m' iface ρ₀ fuel f = runFrom g I m iface ρ₀ fuel f := by
      funext l st
      exact ih f l st
    rw [runFrom_succ, runFrom_succ, callFn_of_runFrom hfns ih, hnext]

theorem declare_undefined {iface : List Nat} {is : List Insn} (h : ∀ i ∈ is, i.result g = none)
    (s : (Nat → V) × Mem) : is.foldl (bindGlobal g I iface) s = s := by
  induction is with
  | nil => rfl
  | cons i is ih =>
    have hi : bindGlobal g I iface s i = s := by
      rw [bindGlobal, h i List.mem_cons_self]
    rw [List.foldl_cons, hi, ih fun j hj => h j (List.mem_cons_of_mem i hj)]

theorem declare_keeps (iface : List Nat) (is : List Insn) (s : (Nat → V) × Mem) :
    (is.filter keepsMetadata).foldl (bindGlobal g I iface) s =
      is.foldl (bindGlobal g I iface) s := by
  induction is generalizing s with
  | nil => rfl
  | cons i is ih =>
    rw [List.filter_cons]
    cases hk : keepsMetadata i with
    | true => exact ih _
    | false =>
      have hi : bindGlobal g I iface s i = s := by
        rw [bindGlobal, dropsMetadata_result g hk]
      rw [List.foldl_cons, hi]
      exact ih s

variable {r : EntryRequest}

/-- What a rewrite drops and adds declares nothing. -/
theorem withEntryPoint_runs (hm : m.Kernel g) {fn : Nat} (hid : m.entryId r.name = some fn)
    (iface : List Nat) (fuel id : Nat) (args : List V) (mem : Mem) (io : Nat → V) :
    runModule g I (m.withEntryPoint r) iface fuel id args mem io =
      runModule g I m iface fuel id args mem io := by
  have hdecl : declare g I iface (m.withEntryPoint r).globals mem =
      declare g I iface m.globals mem := by
    obtain ⟨a, mm, b, hglob, ha, hmm⟩ := hm.splits
    have hnew : ∀ i ∈ m.newFor r, i.result g = none := by
      intro i hi
      obtain ⟨rfl, -⟩ | rfl | rfl := mem_newFor hid hi <;> rfl
    simp only [declare]
    rw [withEntryPoint_globals hglob ha hmm, hglob]
    simp only [List.foldl_append, List.foldl_cons, declare_keeps, declare_undefined hnew]
  have hfns : (m.withEntryPoint r).fns = m.fns := rfl
  simp only [runModule, hdecl, callFn_of_runFrom hfns (runFrom_fns hfns _ _ _)]

end Runs

section Stages
variable {g : Grammar} {m : Module}

/-- The entry point a request asks for. -/
def Module.requested (m : Module) (r : EntryRequest) : Insn :=
  entryPointInsn r.stage ((m.entryId r.name).getD 0) r.name

theorem withEntryPoint_entryPoints {r : EntryRequest} (hm : m.Kernel g) {fn : Nat}
    (hid : m.entryId r.name = some fn) :
    (m.withEntryPoint r).entryPoints.Perm (m.requested r :: m.entryPoints) := by
  obtain ⟨a, mm, b, hglob, ha, hmm⟩ := hm.splits
  have hp : ∀ i : Insn, (i.op == .entryPoint) = true → keepsMetadata i = true := by
    intro i hi
    have hop := beq_iff_eq.mp hi
    exact keeps_of_op (by simp [hop]) (by simp [hop]) (by simp [hop])
  have hnew : (m.newFor r).filter (·.op == .entryPoint) = [m.requested r] := by
    have hreq : m.requested r = entryPointInsn r.stage fn r.name := by
      rw [Module.requested, hid]
      rfl
    rw [Module.newFor, entryScan_found hid, EntryScan.splice, hreq]
    cases m.code.any isShaderCap <;> cases r.stage <;> rfl
  rw [Module.entryPoints, Module.entryPoints, withEntryPoint_globals hglob ha hmm, hglob]
  simp only [List.filter_append, List.filter_cons, filter_keeps hp, hnew]
  have hmodel : (mm.op == Op.entryPoint) = false := by simp [hmm]
  simp only [hmodel, Bool.false_eq_true, if_false]
  have hmove := @List.perm_middle Insn (m.requested r) (a.filter (·.op == .entryPoint))
    (b.filter (·.op == .entryPoint))
  simpa using hmove

/-- A module and what several rewrites make of it. -/
structure MetadataOnly (g : Grammar) (m m' : Module) (rs : List EntryRequest) : Prop where
  kernel : m'.Kernel g
  bound : m'.bound = m.bound
  fns : m'.fns = m.fns
  entryPoints : m'.entryPoints.Perm (rs.reverse.map m.requested ++ m.entryPoints)
  named : ∀ entry, m'.entryId entry = m.entryId entry
  dropped : rs ≠ [] → ∀ i ∈ m'.code, keepsMetadata i = true
  shader : rs ≠ [] → m'.code.any isShaderCap = true
  runs : ∀ (V Mem : Type) (I : Interp V Mem) (iface : List Nat) (fuel id : Nat) (args : List V)
    (mem : Mem) (io : Nat → V),
    runModule g I m' iface fuel id args mem io = runModule g I m iface fuel id args mem io

theorem MetadataOnly.refl (hm : m.Kernel g) : MetadataOnly g m m [] where
  kernel := hm
  bound := rfl
  fns := rfl
  entryPoints := .refl _
  named _ := rfl
  dropped h := absurd rfl h
  shader h := absurd rfl h
  runs _ _ _ _ _ _ _ _ _ := rfl

theorem withEntryPoint_shader {r : EntryRequest} (hm : m.Kernel g) {fn : Nat}
    (hid : m.entryId r.name = some fn) : (m.withEntryPoint r).code.any isShaderCap = true := by
  obtain ⟨a, mm, b, hglob, ha, hmm⟩ := hm.splits
  rw [withEntryPoint_code hglob ha hmm]
  cases hany : m.code.any isShaderCap with
  | false =>
    have hmem : (⟨.capability, [1]⟩ : Insn) ∈ m.newFor r := by
      rw [Module.newFor, entryScan_found hid, hany, EntryScan.splice]
      simp
    refine List.any_eq_true.mpr ⟨_, ?_, (rfl : isShaderCap ⟨.capability, [1]⟩ = true)⟩
    simp only [List.mem_append, List.mem_cons]
    exact .inl (.inr (.inr hmem))
  | true =>
    obtain ⟨i, hi, hcap⟩ := List.any_eq_true.mp hany
    have hk : keepsMetadata i = true := by
      obtain ⟨op, args⟩ := i
      cases op <;> simp_all [isShaderCap, keepsMetadata, dropsMetadata]
    refine List.any_eq_true.mpr ⟨i, ?_, hcap⟩
    rw [Module.code, hglob] at hi
    simp only [List.mem_append, List.mem_cons, List.mem_filter] at hi ⊢
    simp only [Module.fnCode]
    tauto

/-- One more rewrite. -/
theorem MetadataOnly.step {m' : Module} {rs : List EntryRequest} {r : EntryRequest}
    (h : MetadataOnly g m m' rs) {fn : Nat} (hid : m.entryId r.name = some fn)
    (hstr : CString r.name) (hfit : FitsInsn r.name) :
    MetadataOnly g m (m'.withEntryPoint r) (rs ++ [r]) := by
  have hid' : m'.entryId r.name = some fn := (h.named r.name).trans hid
  have hreq : m'.requested r = m.requested r := by
    rw [Module.requested, Module.requested, h.named]
  exact {
    kernel := withEntryPoint_kernel h.kernel hid' hstr hfit
    bound := h.bound
    fns := h.fns
    entryPoints := by
      have hp := withEntryPoint_entryPoints h.kernel hid'
      rw [hreq] at hp
      rw [List.reverse_append, List.reverse_singleton, List.singleton_append, List.map_cons]
      exact hp.trans (h.entryPoints.cons _)
    named := fun entry => (withEntryPoint_entryId h.kernel hid' entry).trans (h.named entry)
    dropped := fun _ i hi => by
      cases mem_withEntryPointCode h.kernel hi with
      | inl hk => exact hk.2
      | inr hk => exact (newFor_op hid' hk).2
    shader := fun _ => withEntryPoint_shader h.kernel hid'
    runs := fun V Mem I iface fuel id args mem io =>
      (withEntryPoint_runs h.kernel hid' iface fuel id args mem io).trans
        (h.runs V Mem I iface fuel id args mem io) }

theorem rewriteEntryPoints_from {m' : Module} {done : List EntryRequest}
    (h : MetadataOnly g m m' done) (hd : StreamHeader) (rs : List EntryRequest)
    (hrs : ∀ r ∈ rs, CString r.name ∧ FitsInsn r.name) :
    (rs.all fun r => (m.entryId r.name).isSome) = true ∧
        rewriteEntryPoints (m'.stream hd) rs = .ok ((m'.withEntryPoints rs).stream hd) ∧
        MetadataOnly g m (m'.withEntryPoints rs) (done ++ rs) ∨
      (rs.all fun r => (m.entryId r.name).isSome) = false ∧
        rewriteEntryPoints (m'.stream hd) rs = .status .invalidArg := by
  induction rs generalizing m' done with
  | nil =>
    refine .inl ⟨rfl, rfl, ?_⟩
    rw [List.append_nil]
    exact h
  | cons r rs ih =>
    obtain ⟨hstr, hfit⟩ := hrs r List.mem_cons_self
    have hone := rewriteEntryPoint_module h.kernel hstr.1 hd
    rw [h.named] at hone
    cases hid : m.entryId r.name with
    | none =>
      rw [hid] at hone
      refine .inr ⟨by simp [hid], ?_⟩
      rw [rewriteEntryPoints, hone]
      rfl
    | some fn =>
      rw [hid] at hone
      have hrest := ih (h.step hid hstr hfit) fun q hq => hrs q (List.mem_cons_of_mem r hq)
      rw [List.append_assoc, List.singleton_append] at hrest
      have hrun : rewriteEntryPoints (m'.stream hd) (r :: rs) =
          rewriteEntryPoints ((m'.withEntryPoint r).stream hd) rs := by
        rw [rewriteEntryPoints, hone]
        rfl
      rw [List.all_cons, hid, hrun]
      exact hrest

/-- A kernel module rewritten once for each of any stages: it succeeds when each has a name
in the module, and leaves a well-formed module with the same functions and runs, the asked
entry points beside those it had, and nothing of the drop list. -/
theorem rewriteEntryPoints_module (hm : m.Kernel g) (rs : List EntryRequest)
    (hrs : ∀ r ∈ rs, CString r.name ∧ FitsInsn r.name) (h : StreamHeader) :
    ((∃ out, rewriteEntryPoints (m.stream h) rs = .ok out) ↔
        ∀ r ∈ rs, ∃ fn, m.entryId r.name = some fn) ∧
      ∀ out, rewriteEntryPoints (m.stream h) rs = .ok out →
        ∃ m', out = m'.stream h ∧ MetadataOnly g m m' rs := by
  have hall : (rs.all fun r => (m.entryId r.name).isSome) = true ↔
      ∀ r ∈ rs, ∃ fn, m.entryId r.name = some fn := by
    simp [Option.isSome_iff_exists]
  obtain ⟨hn, hok, hr⟩ | ⟨hn, hbad⟩ := rewriteEntryPoints_from (.refl hm) h rs hrs
  · refine ⟨⟨fun _ => hall.mp hn, fun _ => ⟨_, hok⟩⟩, fun out hout => ?_⟩
    rw [hok] at hout
    cases hout
    exact ⟨_, rfl, hr⟩
  · rw [hn] at hall
    rw [hbad]
    refine ⟨⟨fun hout => ?_, fun hnames => ?_⟩, fun out hout => ?_⟩
    · obtain ⟨out, hout⟩ := hout
      cases hout
    · cases hall.mpr hnames
    · cases hout

end Stages

/-- Both stages of one function. -/
theorem rewriteEntryPoints_both :
    ∃ out m', rewriteEntryPoints ((shaderModule 13).stream shaderHeader)
        [⟨mainName, .vertex⟩, ⟨mainName, .fragment⟩] = .ok out ∧ out = m'.stream shaderHeader ∧
      MetadataOnly constructGrammar (shaderModule 13) m'
        [⟨mainName, .vertex⟩, ⟨mainName, .fragment⟩] := by
  have hrs : ∀ r ∈ ([⟨mainName, .vertex⟩, ⟨mainName, .fragment⟩] : List EntryRequest),
      CString r.name ∧ FitsInsn r.name := by
    intro r hr
    have hname : r.name = mainName := by
      simp only [List.mem_cons, List.not_mem_nil, or_false] at hr
      obtain rfl | rfl := hr <;> rfl
    rw [hname]
    exact ⟨mainName_cstring, by decide⟩
  obtain ⟨hiff, hall⟩ := rewriteEntryPoints_module (shaderModule_kernel (.inl rfl)) _ hrs
    shaderHeader
  obtain ⟨out, hout⟩ := hiff.mpr (by
    intro r hr
    simp only [List.mem_cons, List.not_mem_nil, or_false] at hr
    obtain rfl | rfl := hr <;> exact ⟨9, rfl⟩)
  obtain ⟨m', hm', hmeta⟩ := hall out hout
  exact ⟨out, m', hout, hm', hmeta⟩

end Lagfx.Spirv
