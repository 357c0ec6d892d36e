import Lagfx.SignatureRewrite
import Mathlib.Data.List.Induction

/-! What the scan of the signature transform finds in a kernel-dialect module, and the
stream of such a module. -/
namespace Lagfx.Spirv

/-- Version, generator and schema words of the stream. -/
structure StreamHeader where
  version : Nat
  generator : Nat
  schema : Nat
deriving DecidableEq, Repr

def Module.stream (h : StreamHeader) (m : Module) : List Nat :=
  [spvMagic, h.version, h.generator, m.bound, h.schema] ++ m.code.flatMap Insn.pack

theorem Insn.pack_length (i : Insn) : i.pack.length = i.words := rfl

theorem flatMap_pack_length (is : List Insn) : (is.flatMap Insn.pack).length = wordCount is := by
  simp only [List.length_flatMap, wordCount, Insn.pack_length]

/-- Framing reads back what was packed. -/
theorem decodeLoop_pack {is : List Insn} (h : ∀ i ∈ is, i.op.Canonical ∧ i.words < 65536)
    (fuel : Nat) (hf : (is.flatMap Insn.pack).length ≤ fuel) :
    decodeLoop fuel (is.flatMap Insn.pack) = some is := by
  induction is generalizing fuel with
  | nil => cases fuel <;> rfl
  | cons i is ih =>
    obtain ⟨⟨hcode, hop⟩, hw⟩ := h i List.mem_cons_self
    rw [List.flatMap_cons] at hf ⊢
    cases fuel with
    | zero => simp [Insn.pack] at hf
    | succ fuel =>
      have hwords : i.words = i.args.length+1 := rfl
      have hmod : i.words % 65536 = i.words := Nat.mod_eq_of_lt hw
      have hwc : (i.words*65536+i.op.code)/65536 % 65536 = i.words := by omega
      have hoc : (i.words*65536+i.op.code) % 65536 = i.op.code := by omega
      have hrest : (is.flatMap Insn.pack).length ≤ fuel := by
        simp only [Insn.pack, List.length_append, List.length_cons] at hf
        omega
      simp only [Insn.pack, List.cons_append, decodeLoop, hmod, hwc, hoc, hop]
      rw [if_neg (by simp [hwords])]
      simp only [hwords, Nat.add_sub_cancel, List.drop_left, List.take_left]
      rw [ih (fun j hj => h j (List.mem_cons_of_mem i hj)) fuel hrest]

/-- The transform on the stream of a module the scan accepts. -/
theorem signatureTransform_stream {g : Grammar} {m : Module} {f : Fn} {s : ScanState}
    {entry : List Nat} {stage : SpvStage} (hm : m.Kernel g) (hf : f ∈ m.fns)
    (hne : f.blocks ≠ []) (hs : scanModule m.bound m.code entry = .ok s) (hid : f.id = s.fnId)
    (hentry : entry ≠ []) (h : StreamHeader) :
    signatureTransform (m.stream h) entry stage true =
      let c := emitCtx s m.code entry stage
      let m' := c.rewriteModule (planSynthIds s).2 m f
      if wordCount m.code+slackWords entry < wordCount m'.code then .overrun
      else .ok ({ m' with bound := m'.bound % 2^32 }.stream h) := by
  have hdec : decodeInsns ((m.stream h).drop 5) = some m.code := by
    simp only [Module.stream, List.cons_append, List.nil_append, List.drop_succ_cons,
      List.drop_zero]
    exact decodeLoop_pack hm.stream _ le_rfl
  have hlen : (m.stream h).length = 5+wordCount m.code := by
    simp only [Module.stream, List.length_append, List.length_cons, List.length_nil,
      flatMap_pack_length]
  have hb : (m.stream h).getD 3 0 = m.bound := rfl
  have hmagic : (m.stream h).getD 0 0 = spvMagic := rfl
  have hemit : emitModule s m.code entry stage = _ :=
    emitAll_module (c := emitCtx s m.code entry stage) hm hf hne hid _
  have hge : ¬ (m.stream h).length < 5 := by omega
  have hem : entry.isEmpty = false := by simpa using hentry
  simp only [signatureTransform, hdec, hb, hmagic, hs, hemit, hlen, hem]
  simp only [Bool.false_eq_true, ne_eq, not_true_eq_false, or_self, if_false, Bool.not_true,
    between, Nat.not_lt.mpr (Nat.le_add_right 5 (wordCount m.code))]
  have hiff : ∀ x y z : Nat, 5+x+y < 5+z ↔ x+y < z := by omega
  simp only [hiff]
  rfl

/-- Pointer types the scan records. -/
def Module.recordedPointers (m : Module) : List Nat :=
  ((m.code.filter (·.op == .typePointer)).map (·.arg 0)).take maxPointerTypes

def isLifetime (i : Insn) : Bool := i.op == .lifetimeStart || i.op == .lifetimeStop

/-- Operands of lifetime markers the scan records. -/
def Module.recordedLifetimes (m : Module) : List Nat :=
  ((m.code.filter isLifetime).map (·.arg 0)).take maxLifetimeOperands

/-- An entry added while there is room for it. -/
def push (k : Nat) (xs : List Nat) (a : Nat) : List Nat :=
  if xs.length < k then xs ++ [a] else xs

theorem push_length {a : Nat} {xs : List Nat} {k : Nat} (h : xs.length ≤ k) :
    (push k xs a).length ≤ k := by
  simp only [push]
  split
  · simpa using by omega
  · exact h

theorem push_take {a : Nat} {xs ys : List Nat} {k : Nat} (h : xs.length ≤ k) :
    (push k xs a ++ ys).take k = (xs ++ a :: ys).take k := by
  simp only [push]
  split
  · simp
  · have hk : xs.length = k := by omega
    simp [← hk]

theorem arg_eq {i : Insn} {k : Nat} (h : k < i.args.length) : i.args[k]? = some (i.arg k) := by
  simp [Insn.arg, List.getD, h]

section Fold
variable {entry : List Nat} {s : ScanState} {i : Insn} {is : List Insn}

theorem scanInsn_bound : (scanInsn entry s i).bound = s.bound := by
  simp only [scanInsn]
  split <;> (try split_ifs) <;> rfl

theorem scanInsn_pointers (ha : i.arity = true) :
    (scanInsn entry s i).pointerTypeIds =
      if i.op == .typePointer then push maxPointerTypes s.pointerTypeIds (i.arg 0)
      else s.pointerTypeIds := by
  obtain ⟨op, args⟩ := i
  cases op <;> simp only [scanInsn, Insn.arity, push, beq_iff_eq] at ha ⊢ <;>
    (try split_ifs) <;> simp_all

theorem scanInsn_lifetimes (ha : i.arity = true) :
    (scanInsn entry s i).lifetimeOperandIds =
      if isLifetime i then push maxLifetimeOperands s.lifetimeOperandIds (i.arg 0)
      else s.lifetimeOperandIds := by
  obtain ⟨op, args⟩ := i
  cases op <;> simp only [scanInsn, isLifetime, Insn.arity, push, beq_iff_eq] at ha ⊢ <;>
    (try split_ifs) <;> simp_all

theorem foldl_bound : (is.foldl (scanInsn entry) s).bound = s.bound := by
  induction is generalizing s with
  | nil => rfl
  | cons i is ih => rw [List.foldl_cons, ih, scanInsn_bound]

/-- A table filled up to `k` entries. -/
theorem foldl_push (entry : List Nat) {π : ScanState → List Nat} {p : Insn → Bool} {k : Nat}
    (h : ∀ s, ∀ i ∈ is, π (scanInsn entry s i) = if p i then push k (π s) (i.arg 0) else π s)
    (hl : (π s).length ≤ k) :
    π (is.foldl (scanInsn entry) s) = (π s ++ (is.filter p).map (·.arg 0)).take k := by
  induction is generalizing s with
  | nil => simp [List.take_of_length_le hl]
  | cons i is ih =>
    have hi := h s i List.mem_cons_self
    have h' := fun s j hj => h s j (List.mem_cons_of_mem i hj)
    rw [List.foldl_cons]
    cases hp : p i with
    | true =>
      rw [hp, if_pos rfl] at hi
      rw [ih h' (by rw [hi]; exact push_length hl), hi, push_take hl]
      simp [hp]
    | false =>
      rw [hp, if_neg Bool.false_ne_true] at hi
      rw [ih h' (by rw [hi]; exact hl), hi]
      simp [hp]

/-- Ids the first pass reuses come from instructions it has seen, the type of the zero
before the zero. -/
structure Seen (is : List Insn) (s : ScanState) : Prop where
  void : s.voidId ≠ 0 → ∃ i ∈ is, i.op = .typeVoid ∧ 1 ≤ i.args.length ∧ i.arg 0 = s.voidId
  uint : s.uintTypeId ≠ 0 → ∃ i ∈ is, i.op = .typeInt ∧ 3 ≤ i.args.length ∧
    i.arg 1 = 32 ∧ i.arg 2 = 0 ∧ i.arg 0 = s.uintTypeId
  zero : s.uintZeroId ≠ 0 → ∃ a i b, is = a ++ i :: b ∧ i.op = .constant ∧ 3 ≤ i.args.length ∧
    i.arg 2 = 0 ∧ i.arg 1 = s.uintZeroId ∧ ∃ j ∈ a, j.op = .typeInt ∧ 3 ≤ j.args.length ∧
      j.arg 1 = 32 ∧ j.arg 2 = 0 ∧ j.arg 0 = i.arg 0

theorem Seen.snoc (h : Seen is s) : Seen (is ++ [i]) s where
  void hne := by
    obtain ⟨j, hj, h⟩ := h.void hne
    exact ⟨j, List.mem_append_left _ hj, h⟩
  uint hne := by
    obtain ⟨j, hj, h⟩ := h.uint hne
    exact ⟨j, List.mem_append_left _ hj, h⟩
  zero hne := by
    obtain ⟨a, j, b, rfl, hzero⟩ := h.zero hne
    exact ⟨a, j, b ++ [i], by simp, hzero⟩

theorem Seen.step (h : Seen is s) : Seen (is ++ [i]) (scanInsn entry s i) := by
  have hi : i ∈ is ++ [i] := by simp
  obtain ⟨hv, hu, hz⟩ := h.snoc (i := i)
  simp only [scanInsn]
  split <;> (try split_ifs) <;> refine ⟨?_, ?_, ?_⟩ <;> (try assumption) <;> intro hne
  · rename_i hop hlen
    exact ⟨i, hi, hop, hlen, rfl⟩
  · rename_i hop hc
    exact ⟨i, hi, hop, hc.1, hc.2.1, hc.2.2, rfl⟩
  · rename_i hop hc
    obtain ⟨j, hj, hjop, hjlen, h1, h2, h0⟩ := h.uint hc.2.1
    exact ⟨is, i, [], rfl, hop, hc.1, hc.2.2.2.1, rfl, j, hj, hjop, hjlen, h1, h2,
      h0.trans hc.2.2.1.symm⟩

theorem seen_foldl (entry : List Nat) (is : List Insn) (b : Nat) :
    Seen is (is.foldl (scanInsn entry) { bound := b }) := by
  induction is using List.reverseRecOn with
  | nil => exact ⟨by simp, by simp, by simp⟩
  | append_singleton is i ih =>
    rw [List.foldl_append]
    exact ih.step

end Fold

section Facts
variable {g : Grammar} {m : Module} {f : Fn} {s : ScanState} {entry : List Nat}

/-- Opcodes of a function that may be no declaration's. -/
theorem Module.Kernel.fns_op (hm : m.Kernel g) {i : Insn} (hi : i ∈ m.fns.flatMap Fn.code)
    (hg : i.op.inGlobals = true) (hl : i.op.isLine = false) : i.op.inBlock = true := by
  simp only [Fn.code, Block.code, List.mem_append, List.mem_flatMap, List.mem_cons] at hi
  obtain ⟨f, hf, ((rfl | hi) | ⟨b, hb', rfl | hi⟩) | rfl | hi⟩ := hi
  · simp [Fn.head, Op.inGlobals] at hg
  · cases (hm.fns f hf).header_cases hi with
    | inl h => simp [h, Op.inGlobals] at hg
    | inr h => simp [h] at hl
  · simp [Op.inGlobals] at hg
  · exact (hm.fns f hf).insns i (mem_insns hb' hi)
  · simp [Op.inGlobals] at hg
  · exact absurd ((hm.fns f hf).trail i hi).1 (by simp [hl])

/-- Declarations' opcodes stand among the declarations. -/
theorem Module.Kernel.mem_globals (hm : m.Kernel g) {i : Insn} (hi : i ∈ m.code)
    (hg : i.op.inGlobals = true) (hb : i.op.inBlock = false) (hl : i.op.isLine = false) :
    i ∈ m.globals := by
  cases List.mem_append.mp hi with
  | inl h => exact h
  | inr h => exact absurd (hm.fns_op h hg hl) (by simp [hb])

/-- A declaration with what stands before it. -/
theorem Module.Kernel.split_globals (hm : m.Kernel g) {a b : List Insn} {i : Insn}
    (h : m.code = a ++ i :: b) (hg : i.op.inGlobals = true) (hb : i.op.inBlock = false)
    (hl : i.op.isLine = false) : ∃ b', m.globals = a ++ i :: b' := by
  rw [Module.code, List.append_eq_append_iff] at h
  obtain ⟨a', ha, hfns⟩ | ⟨c, hglob, hrest⟩ := h
  · have hi : i ∈ m.fns.flatMap Fn.code := by simp [hfns]
    exact absurd (hm.fns_op hi hg hl) (by simp [hb])
  · cases c with
    | nil =>
      have hi : i ∈ m.fns.flatMap Fn.code := by
        have hrest' : i :: b = m.fns.flatMap Fn.code := hrest
        rw [← hrest']
        exact List.mem_cons_self
      exact absurd (hm.fns_op hi hg hl) (by simp [hb])
    | cons j c =>
      simp only [List.cons_append, List.cons.injEq] at hrest
      exact ⟨c, by rw [hglob, hrest.1]⟩

theorem globals_sub_code {i : Insn} (hi : i ∈ m.globals) : i ∈ m.code :=
  List.mem_append_left _ hi

theorem mem_results {is : List Insn} {i : Insn} {r : Nat} (hi : i ∈ is) (hr : i.result g = some r) :
    r ∈ results g is := List.mem_filterMap.mpr ⟨i, hi, hr⟩

/-- Two declarations never define one id. -/
theorem Module.ValidIds.result_inj (hm : m.ValidIds g) {i j : Insn} {r : Nat} (hi : i ∈ m.globals)
    (hj : j ∈ m.globals) (hri : i.result g = some r) (hrj : j.result g = some r) : i = j := by
  have hnd := (List.nodup_append.mp hm.nodup).1
  generalize m.globals = is at hi hj hnd
  induction is with
  | nil => exact absurd hi (by simp)
  | cons k is ih =>
    simp only [results, List.filterMap_cons] at hnd
    cases List.mem_cons.mp hi with
    | inl hik =>
      cases List.mem_cons.mp hj with
      | inl hjk => rw [hik, hjk]
      | inr hj' =>
        subst hik
        rw [hri] at hnd
        exact absurd (mem_results hj' hrj) (List.nodup_cons.mp hnd).1
    | inr hi' =>
      cases List.mem_cons.mp hj with
      | inl hjk =>
        subst hjk
        rw [hrj] at hnd
        exact absurd (mem_results hi' hri) (List.nodup_cons.mp hnd).1
      | inr hj' =>
        refine ih hi' hj' ?_
        cases hk : k.result g with
        | none => simpa [hk, results] using hnd
        | some r' =>
          rw [hk] at hnd
          exact (List.nodup_cons.mp hnd).2

/-- What the scan of a module tells of it and of the entry function `f`. -/
structure ScanFacts (g : Grammar) (m : Module) (f : Fn) (s : ScanState) : Prop where
  bound : s.bound = m.bound
  pointers : s.pointerTypeIds = m.recordedPointers
  lifetimes : s.lifetimeOperandIds = m.recordedLifetimes
  void : s.voidId ≠ 0 → s.voidId ∈ results g m.globals
  uint : s.uintTypeId ≠ 0 → ⟨.typeInt, [s.uintTypeId, 32, 0]⟩ ∈ m.globals
  zero : s.uintZeroId ≠ 0 → ∃ t a b, m.globals = a ++ ⟨.constant, [t, s.uintZeroId, 0]⟩ :: b ∧
    ⟨.typeInt, [t, 32, 0]⟩ ∈ a
  params : s.paramTypes = f.paramTypes
  paramsLe : s.paramTypes.length ≤ 8
  membersLe : s.retMemberTypes.length ≤ 8
  members : (s.retIsStruct = true ∧ ⟨.typeStruct, f.retType :: s.retMemberTypes⟩ ∈ m.globals) ∨
    (s.retIsStruct = false ∧ s.retMemberTypes = [f.retType] ∧
      ∀ ts, ⟨.typeStruct, f.retType :: ts⟩ ∉ m.globals)

theorem scanModule_ok (hs : scanModule m.bound m.code entry = .ok s) :
    ∃ fn ps b ts, m.code.find? (isFunctionOf s.fnId 4) = some fn ∧
      scanSignature m.code fn = .ok ps ∧ scanReturnType m.code (fn.arg 0) = .ok (b, ts) ∧
      s = { m.code.foldl (scanInsn entry) { bound := m.bound } with
        fnTypeId := fn.arg 3, fnRetTypeId := fn.arg 0, paramTypes := ps
        retIsStruct := b, retMemberTypes := ts } := by
  simp only [scanModule] at hs
  split_ifs at hs
  split at hs
  · cases hs
  · rename_i fn hfn
    split_ifs at hs
    split at hs
    · cases hs
    · rename_i ps hps
      split at hs
      · cases hs
      · rename_i b ts hrt
        cases hs
        exact ⟨fn, ps, b, ts, hfn, hps, hrt, rfl⟩

/-- The OpFunction the scan finds is the head of the function with its id. -/
theorem head_of_find (hm : m.Kernel g) (hf : f ∈ m.fns) {fn : Insn}
    (h : m.code.find? (isFunctionOf f.id 4) = some fn) : fn = f.head := by
  have hmem := List.mem_of_find?_eq_some h
  have hp := List.find?_some h
  simp only [isFunctionOf, Bool.and_eq_true, beq_iff_eq] at hp
  obtain ⟨⟨hop, -⟩, hid⟩ := hp
  simp only [Module.code, List.mem_append, List.mem_flatMap] at hmem
  obtain hg | ⟨k, hk, hc⟩ := hmem
  · exact absurd (hm.globals fn hg) (by simp [hop, Op.inGlobals])
  · by_cases hh : fn = k.head
    · have hkid : k.id = f.id := by simpa [hh, Fn.head, Insn.arg] using hid
      rw [← hm.ids.fn_unique hf hk hkid]
      exact hh
    · exact absurd hop ((hm.fns k hk).op_ne hc hh)

/-- Signature of the entry function. -/
theorem scanSignature_spec (hm : m.Kernel g) (hf : f ∈ m.fns) {ps : List Nat}
    (h : scanSignature m.code f.head = .ok ps) : ps = f.paramTypes ∧ ps.length ≤ 8 := by
  simp only [scanSignature] at h
  split at h
  · cases h
  · rename_i ty hfind
    split_ifs at h with hret hlen
    cases h
    have hp := List.find?_some hfind
    simp only [isTypeFunctionOf, Bool.and_eq_true, beq_iff_eq, decide_eq_true_eq] at hp
    obtain ⟨⟨hop, h2⟩, hid⟩ := hp
    have hg := hm.mem_globals (List.mem_of_find?_eq_some hfind) (by simp [hop, Op.inGlobals,
      Op.isTerminator, Op.code]) (by simp [hop, Op.inBlock, Op.isType, Op.code])
      (by simp [hop, Op.isLine, Op.code])
    have hres : ty.result g = some f.fnType := by
      rw [show f.fnType = ty.arg 0 from hid.symm, ← arg_eq (by omega)]
      simp [Insn.result, hop]
    have heq := hm.ids.result_inj hg (hm.fns f hf).type hres (by simp [Insn.result])
    subst heq
    refine ⟨rfl, ?_⟩
    simpa [maxParams] using hlen

/-- Return type of the entry function. -/
theorem scanReturnType_spec (hm : m.Kernel g) {ret : Nat} {b : Bool} {ts : List Nat}
    (h : scanReturnType m.code ret = .ok (b, ts)) :
    ts.length ≤ 8 ∧ ((b = true ∧ ⟨.typeStruct, ret :: ts⟩ ∈ m.globals) ∨
      (b = false ∧ ts = [ret] ∧ ∀ us, ⟨.typeStruct, ret :: us⟩ ∉ m.globals)) := by
  simp only [scanReturnType] at h
  split at h
  · cases h
  · rename_i ty hfind
    have hmem := List.mem_of_find?_eq_some hfind
    have hp := List.find?_some hfind
    simp only [isReturnTypeOf, Bool.and_eq_true, beq_iff_eq, decide_eq_true_eq,
      Bool.or_eq_true] at hp
    obtain ⟨⟨hlen1, hid⟩, hops⟩ := hp
    obtain ⟨op, args⟩ := ty
    obtain ⟨a, as, rfl⟩ := List.exists_cons_of_length_pos hlen1
    have ha : a = ret := hid
    subst ha
    split_ifs at h with hop hlen
    · cases h
      have hop' : op = .typeStruct := hop
      subst hop'
      have hg := hm.mem_globals hmem rfl rfl rfl
      refine ⟨?_, .inl ⟨rfl, hg⟩⟩
      simpa [maxStructMembers] using hlen
    · cases h
      refine ⟨by simp, .inr ⟨rfl, rfl, fun us hs => ?_⟩⟩
      have hg : ⟨op, a :: as⟩ ∈ m.globals := by
        obtain ((rfl | rfl) | rfl) | rfl := hops <;> exact hm.mem_globals hmem rfl rfl rfl
      have hres : (⟨op, a :: as⟩ : Insn).result g = some a := by
        obtain ((rfl | rfl) | rfl) | rfl := hops <;> rfl
      have heq := hm.ids.result_inj hg hs hres rfl
      simp only [Insn.mk.injEq] at heq
      exact hop heq.1

/-- Reused ids are defined by declarations. -/
theorem seen_void (hm : m.Kernel g) {t : ScanState} (h : Seen m.code t) (h0 : t.voidId ≠ 0) :
    t.voidId ∈ results g m.globals := by
  obtain ⟨i, hi, hop, hlen, hr⟩ := h.void h0
  have hg := hm.mem_globals hi (by simp [hop, Op.inGlobals, Op.isTerminator, Op.code])
    (by simp [hop, Op.inBlock, Op.isType, Op.code]) (by simp [hop, Op.isLine, Op.code])
  refine mem_results hg ?_
  rw [← hr, ← arg_eq (by omega)]
  simp [Insn.result, hop]

theorem eq_typeInt {i : Insn} (ha : i.arity = true) (hop : i.op = .typeInt) (h1 : i.arg 1 = 32)
    (h2 : i.arg 2 = 0) : i = ⟨.typeInt, [i.arg 0, 32, 0]⟩ := by
  obtain ⟨op, args⟩ := i
  subst hop
  have h3 : args.length = 3 := by simpa [Insn.arity] using ha
  obtain ⟨x, y, z, rfl⟩ := List.length_eq_three.mp h3
  have hy : y = 32 := h1
  have hz : z = 0 := h2
  rw [hy, hz]
  rfl

theorem seen_uint (hm : m.Kernel g) {t : ScanState} (h : Seen m.code t) (h0 : t.uintTypeId ≠ 0) :
    ⟨.typeInt, [t.uintTypeId, 32, 0]⟩ ∈ m.globals := by
  obtain ⟨i, hi, hop, -, h1, h2, hr⟩ := h.uint h0
  have hg := hm.mem_globals hi (by simp [hop, Op.inGlobals, Op.isTerminator, Op.code])
    (by simp [hop, Op.inBlock, Op.isType, Op.code]) (by simp [hop, Op.isLine, Op.code])
  rw [← hr, ← eq_typeInt (hm.arity i hi) hop h1 h2]
  exact hg

theorem seen_zero (hm : m.Kernel g) {t : ScanState} (h : Seen m.code t) (h0 : t.uintZeroId ≠ 0) :
    ∃ u a b, m.globals = a ++ ⟨.constant, [u, t.uintZeroId, 0]⟩ :: b ∧
      ⟨.typeInt, [u, 32, 0]⟩ ∈ a := by
  obtain ⟨a, i, b, hcode, hop, -, h2, h1, j, hj, hjop, -, hj1, hj2, hj0⟩ := h.zero h0
  obtain ⟨b', hglob⟩ := hm.split_globals hcode
    (by simp [hop, Op.inGlobals, Op.isTerminator, Op.code]) (by simp [hop, Op.inBlock])
    (by simp [hop, Op.isLine, Op.code])
  have hja : j.arity = true := hm.arity j (globals_sub_code (by simp [hglob, hj]))
  have hjeq := eq_typeInt hja hjop hj1 hj2
  rw [hj0] at hjeq
  rw [hjeq] at hj
  have h3 := hm.uints i (by simp [hglob]) hop (by simp [hglob, hj])
  have hi : i = ⟨.constant, [i.arg 0, t.uintZeroId, 0]⟩ := by
    obtain ⟨op, args⟩ := i
    subst hop
    obtain ⟨x, y, z, rfl⟩ := List.length_eq_three.mp h3
    have hy : y = t.uintZeroId := h1
    have hz : z = 0 := h2
    rw [← hy, hz]
    rfl
  exact ⟨i.arg 0, a, b', by rw [hglob, ← hi], hj⟩

theorem scanFacts (hm : m.Kernel g) (hf : f ∈ m.fns)
    (hs : scanModule m.bound m.code entry = .ok s) (hid : f.id = s.fnId) : ScanFacts g m f s := by
  obtain ⟨fn, ps, b, ts, hfn, hps, hrt, hs'⟩ := scanModule_ok hs
  rw [← hid] at hfn
  have hhead := head_of_find hm hf hfn
  rw [hhead] at hps hrt
  obtain ⟨hps', hple⟩ := scanSignature_spec hm hf hps
  obtain ⟨htle, hts⟩ := scanReturnType_spec hm hrt
  have hseen := seen_foldl entry m.code m.bound
  have hv := seen_void hm hseen
  have hu := seen_uint hm hseen
  have hz := seen_zero hm hseen
  have hptr := foldl_push entry (s := { bound := m.bound })
    (π := ScanState.pointerTypeIds) (p := fun i => i.op == .typePointer) (k := maxPointerTypes)
    (fun s i hi => scanInsn_pointers (hm.arity i hi)) (by simp)
  have hlt := foldl_push entry (s := { bound := m.bound })
    (π := ScanState.lifetimeOperandIds) (p := isLifetime) (k := maxLifetimeOperands)
    (fun s i hi => scanInsn_lifetimes (hm.arity i hi)) (by simp)
  rw [hs']
  exact {
    bound := foldl_bound
    pointers := by simpa [Module.recordedPointers] using hptr
    lifetimes := by simpa [Module.recordedLifetimes] using hlt
    void := hv
    uint := hu
    zero := hz
    params := hps'
    paramsLe := hple
    membersLe := htle
    members := hts }

end Facts

end Lagfx.Spirv
