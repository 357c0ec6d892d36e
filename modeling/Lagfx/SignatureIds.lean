import Lagfx.SignatureScan
import Mathlib.Data.List.Nodup

/-! Ids of the rewritten module: the ids that stay, the ids that are lost, and the fresh
ones. -/
namespace Lagfx.Spirv
variable {g : Grammar} {m : Module} {f : Fn} {c : EmitCtx}

/-- OpBitcast to a pointer type the scan recorded. -/
def Module.isRecordedCast (m : Module) (i : Insn) : Bool :=
  i.op == .bitcast && m.recordedPointers.contains (i.arg 0)

/-- A recorded cast of which a recorded lifetime marker is a consumer. -/
def Module.dropsCast (m : Module) (i : Insn) : Bool :=
  m.isRecordedCast i && m.recordedLifetimes.contains (i.arg 1)

/-- Definitions the pass keeps. -/
def Block.liveDefs (g : Grammar) (m : Module) (b : Block) : List Nat :=
  b.label :: results g (b.insns.filter fun i => !m.dropsCast i)

def Fn.liveDefs (g : Grammar) (m : Module) (h : Fn) : List Nat :=
  h.blocks.flatMap (Block.liveDefs g m)

/-- Parameters of the entry that the loads in its first block define again. -/
def Fn.loadedParams (f : Fn) : List Nat := if f.headerLines.isEmpty then f.params else []

def Fn.unloadedParams (f : Fn) : List Nat := if f.headerLines.isEmpty then [] else f.params

def Fn.deadCasts (m : Module) (h : Fn) : List Nat := (h.insns.filter m.dropsCast).map (·.arg 1)

/-- Ids whose definition the pass takes away: casts fed to lifetime markers, and the
parameters of an entry with line information in its header. -/
def Module.lostIds (m : Module) (f : Fn) : List Nat :=
  m.fns.flatMap (Fn.deadCasts m) ++ f.unloadedParams

def Module.liveDefs (g : Grammar) (m : Module) (f : Fn) : List Nat :=
  results g m.globals ++ m.fns.flatMap fun h =>
    h.id :: (if h.id = f.id then f.loadedParams else h.params) ++ h.liveDefs g m

/-- Context of the emit pass for the entry function `f` of `m`. -/
structure EmitCtx.For (g : Grammar) (m : Module) (f : Fn) (c : EmitCtx) : Prop where
  scan : ScanFacts g m f c.scan
  fnId : c.scan.fnId = f.id
  ids : c.ids = (planSynthIds c.scan).1
  params : f.headerLines.isEmpty → c.params = f.params

/-- First fresh id after the plan. -/
def EmitCtx.planned (c : EmitCtx) : Nat := (planSynthIds c.scan).2

theorem count_flatMap_add {α : Type*} {l : List α} {F G H : α → List Nat} {x : Nat}
    (h : ∀ a ∈ l, (F a).count x = (G a).count x+(H a).count x) :
    (l.flatMap F).count x = (l.flatMap G).count x+(l.flatMap H).count x := by
  induction l with
  | nil => rfl
  | cons a l ih =>
    simp only [List.flatMap_cons, List.count_append]
    have ha := h a List.mem_cons_self
    have hl := ih fun b hb => h b (List.mem_cons_of_mem a hb)
    omega

theorem results_append (a b : List Insn) : results g (a ++ b) = results g a ++ results g b :=
  List.filterMap_append

theorem results_flatMap (is : List Insn) (rw : Insn → List Insn) :
    results g (is.flatMap rw) = is.flatMap fun i => results g (rw i) := by
  induction is with
  | nil => rfl
  | cons i is ih => rw [List.flatMap_cons, results_append, ih, List.flatMap_cons]

theorem results_eq_flatMap (is : List Insn) :
    results g is = is.flatMap fun i => (i.result g).toList := by
  induction is with
  | nil => rfl
  | cons i is ih =>
    rw [List.flatMap_cons, ← ih]
    cases h : i.result g <;> simp [results, h]

section Casts

theorem EmitCtx.For.isPointerCast (hc : c.For g m f) {i : Insn} (ha : i.arity = true) :
    c.isPointerCast i = m.isRecordedCast i := by
  simp only [EmitCtx.isPointerCast, Module.isRecordedCast, hc.scan.pointers]
  by_cases hop : i.op = .bitcast
  · have h3 : i.args.length = 3 := by simpa [Insn.arity, hop] using ha
    simp [hop, h3]
  · simp [beq_eq_false_iff_ne.mpr hop]

/-- What can become of an instruction. -/
inductive Rewritten (m : Module) (c : EmitCtx) (i : Insn) : List Insn → Prop where
  | undef (h : isSpecBitcast i = true) : Rewritten m c i [⟨.undef, [i.arg 0, i.arg 1]⟩]
  | dead (h : m.dropsCast i = true) : Rewritten m c i []
  | chain (h : m.isRecordedCast i = true) (hd : m.dropsCast i = false) :
      Rewritten m c i [c.asAccessChain i]
  | dropped (h : drops false i = true) : Rewritten m c i []
  | kept (hs : isSpecBitcast i = false) (hr : m.isRecordedCast i = false)
      (hd : drops false i = false) : Rewritten m c i [i]

theorem rewritten (hc : c.For g m f) {i : Insn} (ha : i.arity = true) :
    Rewritten m c i (c.rewriteInsn i) := by
  simp only [EmitCtx.rewriteInsn, hc.isPointerCast ha, hc.scan.lifetimes]
  cases hs : isSpecBitcast i with
  | true => exact .undef hs
  | false =>
    cases hr : m.isRecordedCast i with
    | true =>
      cases hl : m.recordedLifetimes.contains (i.arg 1) with
      | true => exact .dead (by rw [Module.dropsCast, hr, hl, Bool.and_self])
      | false => exact .chain hr (by rw [Module.dropsCast, hl, Bool.and_false])
    | false =>
      cases hd : drops false i with
      | true => exact .dropped hd
      | false => exact .kept hs hr hd

theorem isSpecBitcast_op {i : Insn} (h : isSpecBitcast i = true) :
    i.op = .specConstantOp ∧ 3 ≤ i.args.length ∧ i.arg 2 = 124 := by
  simpa [isSpecBitcast, and_assoc] using h

theorem Module.isRecordedCast_op {i : Insn} (h : m.isRecordedCast i = true) :
    i.op = .bitcast ∧ i.arg 0 ∈ m.recordedPointers := by
  simpa [Module.isRecordedCast] using h

theorem Module.dropsCast_recorded {i : Insn} (h : m.dropsCast i = true) :
    m.isRecordedCast i = true ∧ i.arg 1 ∈ m.recordedLifetimes := by
  simpa [Module.dropsCast] using h

theorem drops_result {i : Insn} (h : drops false i = true) : i.result g = none := by
  obtain ⟨op, args⟩ := i
  cases op <;> simp_all [drops, Insn.result]

theorem dropsCast_of_ne {i : Insn} (h : i.op ≠ .bitcast) : m.dropsCast i = false := by
  simp [Module.dropsCast, Module.isRecordedCast, beq_eq_false_iff_ne.mpr h]

theorem result_cast {i : Insn} (ha : i.arity = true) (h : m.isRecordedCast i = true) :
    i.result g = some (i.arg 1) := by
  have hop := (Module.isRecordedCast_op h).1
  have h3 : i.args.length = 3 := by simpa [Insn.arity, hop] using ha
  rw [← arg_eq (by omega)]
  simp [Insn.result, hop]

theorem results_single (i : Insn) : results g [i] = (i.result g).toList := by
  simp [results_eq_flatMap]

/-- What an instruction defines is what it is rewritten to defines, dead casts apart. -/
theorem results_rewriteInsn (hc : c.For g m f) {i : Insn} (ha : i.arity = true) :
    results g (c.rewriteInsn i) = if m.dropsCast i then [] else (i.result g).toList := by
  generalize hl : c.rewriteInsn i = l
  have hr := rewritten hc ha
  rw [hl] at hr
  cases hr with
  | undef h =>
    obtain ⟨hop, h3, -⟩ := isSpecBitcast_op h
    have hres : i.result g = some (i.arg 1) := by
      rw [← arg_eq (by omega)]
      simp [Insn.result, hop]
    rw [dropsCast_of_ne (by simp [hop]), hres]
    rfl
  | dead h => simp [h, results]
  | chain h hd =>
    rw [hd, result_cast ha h]
    rfl
  | dropped h =>
    rw [drops_result h]
    simp [results]
  | kept hs hr hd =>
    have : m.dropsCast i = false := by simp [Module.dropsCast, hr]
    simp [this, results_single]

theorem results_rewrite (hc : c.For g m f) {is : List Insn} (ha : ∀ i ∈ is, i.arity = true) :
    results g (is.flatMap c.rewriteInsn) = results g (is.filter fun i => !m.dropsCast i) := by
  rw [results_flatMap]
  induction is with
  | nil => rfl
  | cons i is ih =>
    rw [List.flatMap_cons, results_rewriteInsn hc (ha i List.mem_cons_self),
      ih fun j hj => ha j (List.mem_cons_of_mem i hj)]
    cases hd : m.dropsCast i
    · cases hr : i.result g <;> simp [hd, results, hr]
    · simp [hd]

/-- Ids of the extracts of one return. -/
def EmitCtx.extractIds (c : EmitCtx) (next : Nat) : List Nat :=
  if c.scan.retIsStruct then List.range' next c.scan.retMemberTypes.length else []

theorem EmitCtx.afterReturn_eq (n : Nat) : c.afterReturn n = n+(c.extractIds n).length := by
  simp only [EmitCtx.afterReturn, EmitCtx.extractIds]
  split <;> simp

/-- Each return of a struct defines one id for each member. -/
theorem results_returnStores (hlen : c.outVars.length = c.scan.retMemberTypes.length) (n v : Nat) :
    results g (c.returnStores n v ++ [⟨.ret, []⟩]) = c.extractIds n := by
  rw [results_append]
  have hret : results g [⟨.ret, []⟩] = [] := by simp [results, Insn.result]
  rw [hret, List.append_nil, EmitCtx.returnStores, EmitCtx.extractIds]
  split
  · have hz : (c.outVars.zip c.scan.retMemberTypes).length = c.scan.retMemberTypes.length := by
      simp [hlen]
    generalize c.outVars.zip c.scan.retMemberTypes = ps at hz
    rw [← hz]
    clear hz
    have hgen : ∀ k, results g ((ps.zipIdx k).flatMap fun p =>
        [⟨.compositeExtract, [p.1.2, n+p.2, v, p.2]⟩, ⟨.store, [p.1.1, n+p.2]⟩]) =
        List.range' (n+k) ps.length := by
      induction ps with
      | nil => intro k; rfl
      | cons p ps ih =>
        intro k
        rw [List.zipIdx_cons, List.flatMap_cons, results_append, ih (k+1)]
        simp [results, Insn.result, List.range'_succ, Nat.add_assoc]
    simpa using hgen 0
  · simp [results, Insn.result]

end Casts

section Blocks

/-- What a block of the entry defines: what stays of its own, and the extracts. -/
theorem results_rewriteAt (hc : c.For g m f) (hlen : c.outVars.length = c.scan.retMemberTypes.length)
    {is : List Insn} (ha : ∀ i ∈ is, i.arity = true)
    (hi : ∀ i ∈ is.dropLast, i.op.isTerminator = false) (n : Nat) :
    results g (is.flatMap (c.rewriteAt n)) =
      results g (is.filter fun i => !m.dropsCast i) ++
        if is.any (·.op == .returnValue) then c.extractIds n else [] := by
  induction is with
  | nil => rfl
  | cons i is ih =>
    have ha' := fun j hj => ha j (List.mem_cons_of_mem i hj)
    rw [List.flatMap_cons, results_append]
    by_cases hr : i.op = .returnValue
    · have hnil : is = [] := by
        cases is with
        | nil => rfl
        | cons j js => simpa [hr, Op.isTerminator, Op.code] using hi i (by simp)
      subst hnil
      have hd : m.dropsCast i = false := dropsCast_of_ne (by simp [hr])
      have hn : i.result g = none := by simp [Insn.result, hr]
      have hn' : results g [i] = [] := by simp [results, hn]
      simp [EmitCtx.rewriteAt, hr, results_returnStores hlen, hd, hn']
      rfl
    · have hi' : ∀ j ∈ is.dropLast, j.op.isTerminator = false := by
        intro j hj
        cases is with
        | nil => exact absurd hj (by simp)
        | cons k ks => exact hi j (by simp [hj])
      rw [ih ha' hi', EmitCtx.rewriteAt, if_neg hr,
        results_rewriteInsn hc (ha i List.mem_cons_self)]
      cases hd : m.dropsCast i with
      | true => simp [hd, hr]
      | false =>
        rw [if_neg Bool.false_ne_true, List.filter_cons_of_pos (by simp [hd]),
          ← List.singleton_append (l := is.filter _), results_append, results_single]
        simp [hr]

theorem EmitCtx.nextAfter_eq (n : Nat) (b : Block) :
    c.nextAfter n b =
      n+(if b.insns.any (·.op == .returnValue) then c.extractIds n else []).length := by
  simp only [EmitCtx.nextAfter]
  split
  · exact c.afterReturn_eq n
  · rfl

theorem EmitCtx.le_nextAfterAll (bs : List Block) (n : Nat) : n ≤ c.nextAfterAll n bs := by
  induction bs generalizing n with
  | nil => exact le_rfl
  | cons b bs ih =>
    have h := c.nextAfter_eq n b
    exact le_trans (by omega) (ih (c.nextAfter n b))

theorem extractIds_eq (n : Nat) (b : Block) :
    (if b.insns.any (·.op == .returnValue) then c.extractIds n else []) =
      List.range' n (c.nextAfter n b-n) := by
  rw [c.nextAfter_eq n b, Nat.add_sub_cancel_left]
  simp only [EmitCtx.extractIds]
  split_ifs <;> simp

/-- Fresh ids of a block, then those of the blocks after it. -/
theorem range_blocks (n : Nat) (b : Block) (bs : List Block) :
    List.range' n (c.nextAfter n b-n) ++
      List.range' (c.nextAfter n b) (c.nextAfterAll (c.nextAfter n b) bs-c.nextAfter n b) =
      List.range' n (c.nextAfterAll n (b :: bs)-n) := by
  have h := c.nextAfter_eq n b
  have h' := c.le_nextAfterAll bs (c.nextAfter n b)
  have hn : n ≤ c.nextAfter n b := by omega
  have hsplit : c.nextAfterAll n (b :: bs)-n =
      (c.nextAfter n b-n)+(c.nextAfterAll (c.nextAfter n b) bs-c.nextAfter n b) := by
    simp only [EmitCtx.nextAfterAll]
    omega
  rw [hsplit, ← List.range'_append_1]
  congr 2
  omega

theorem defs_rewriteBlock (hc : c.For g m f) (hlen : c.outVars.length = c.scan.retMemberTypes.length)
    {b : Block} (hb : b.Laid) (n : Nat) :
    (c.rewriteBlock n b).defs g = b.liveDefs g m ++ List.range' n (c.nextAfter n b-n) := by
  rw [← extractIds_eq, Block.defs, EmitCtx.rewriteBlock,
    results_rewriteAt hc hlen (fun i hi => (hb.1 i hi).2) hb.2.2 n]
  rfl

theorem count_rewriteBlocks (hc : c.For g m f)
    (hlen : c.outVars.length = c.scan.retMemberTypes.length) {bs : List Block}
    (hb : ∀ b ∈ bs, b.Laid) (n x : Nat) :
    ((c.rewriteBlocks n bs).flatMap (Block.defs g)).count x =
      (bs.flatMap (Block.liveDefs g m)).count x +
        (List.range' n (c.nextAfterAll n bs-n)).count x := by
  induction bs generalizing n with
  | nil => simp [EmitCtx.rewriteBlocks, EmitCtx.nextAfterAll]
  | cons b bs ih =>
    have ih' := ih (fun b' hb' => hb b' (List.mem_cons_of_mem b hb')) (c.nextAfter n b)
    simp only [EmitCtx.rewriteBlocks, List.flatMap_cons, List.count_append,
      defs_rewriteBlock hc hlen (hb b List.mem_cons_self), ← range_blocks, ih']
    omega

/-- The block with the loads defines what it would without, and the loads' ids. -/
theorem count_rewriteFirst (b : Block) (loads : List Insn) (n x : Nat) :
    ((c.rewriteFirst n loads b).defs g).count x =
      ((c.rewriteBlock n b).defs g).count x+(results g loads).count x := by
  have hsplit : (b.insns.takeWhile c.isEarly).flatMap (c.rewriteAt n) ++
      (b.insns.dropWhile c.isEarly).flatMap (c.rewriteAt n) = b.insns.flatMap (c.rewriteAt n) := by
    rw [← List.flatMap_append, List.takeWhile_append_dropWhile]
  simp only [Block.defs, EmitCtx.rewriteFirst, EmitCtx.rewriteBlock, ← hsplit, results_append,
    List.count_cons, List.count_append]
  omega

theorem count_rewriteBody (hc : c.For g m f)
    (hlen : c.outVars.length = c.scan.retMemberTypes.length) {bs : List Block}
    (hb : ∀ b ∈ bs, b.Laid) (hne : bs ≠ []) (loads : List Insn) (n x : Nat) :
    ((c.rewriteBody n loads bs).flatMap (Block.defs g)).count x =
      (bs.flatMap (Block.liveDefs g m)).count x+(results g loads).count x +
        (List.range' n (c.nextAfterAll n bs-n)).count x := by
  cases bs with
  | nil => exact absurd rfl hne
  | cons b bs =>
    have h := count_rewriteBlocks hc hlen hb n x
    simp only [EmitCtx.rewriteBlocks, EmitCtx.rewriteBody, List.flatMap_cons, List.count_append,
      count_rewriteFirst] at h ⊢
    omega

end Blocks

section Plan

theorem freshPairs_flatMap (next n : Nat) :
    (freshPairs next n).flatMap (fun p => [p.1, p.2]) = List.range' next (2*n) := by
  induction n with
  | zero => rfl
  | succ n ih =>
    simp only [freshPairs, List.range_succ, List.map_append, List.flatMap_append] at ih ⊢
    rw [ih, show 2*(n+1) = 2*n+2 by omega, ← List.range'_append_1]
    rfl

theorem freshPairs_length (next n : Nat) : (freshPairs next n).length = n := by
  simp [freshPairs]

theorem EmitCtx.For.outVars_length (hc : c.For g m f) :
    c.outVars.length = c.scan.retMemberTypes.length := by
  simp [EmitCtx.outVars, hc.ids, planSynthIds, freshPairs_length]

theorem EmitCtx.For.inVars_length (hc : c.For g m f) :
    c.inVars.length = c.scan.paramTypes.length := by
  simp [EmitCtx.inVars, hc.ids, planSynthIds, freshPairs_length]

theorem results_interfaceVars (k : Nat) {ps : List (Nat × Nat)} {ts : List Nat}
    (h : ps.length = ts.length) :
    results g ((ps.zip ts).flatMap (interfaceVar k)) = ps.flatMap fun p => [p.1, p.2] := by
  induction ps generalizing ts with
  | nil => rfl
  | cons p ps ih =>
    cases ts with
    | nil => simp at h
    | cons t ts =>
      rw [List.zip_cons_cons, List.flatMap_cons, results_append, ih (by simpa using h)]
      simp [results, Insn.result, interfaceVar]

/-- Fresh ids of the declarations. -/
def EmitCtx.freshIds (c : EmitCtx) : List Nat :=
  let f₁ := afterReuse c.scan.voidId c.scan.bound
  let f₂ := f₁+1+2*c.scan.retMemberTypes.length
  let f₃ := f₂+2*c.scan.paramTypes.length
  let f₄ := afterReuse c.scan.uintTypeId f₃
  (if c.scan.voidId = 0 then [c.scan.bound] else []) ++
  (if c.scan.uintTypeId = 0 then [f₃] else []) ++
  (if c.scan.uintZeroId = 0 then [f₄] else []) ++ [f₁] ++
  List.range' (f₁+1) (2*c.scan.retMemberTypes.length) ++
  List.range' f₂ (2*c.scan.paramTypes.length)

/-- An instruction emitted only where no id was found to reuse. -/
theorem results_reuse (mk : Nat → Insn) (h : ∀ x, (mk x).result g = some x) (id next : Nat) :
    results g (if id = 0 then [mk (reuseOr id next)] else []) =
      if id = 0 then [next] else [] := by
  split_ifs with h0
  · simp [results_single, h, reuseOr, h0]
  · rfl

theorem results_declarations (hc : c.For g m f) : results g c.declarations = c.freshIds := by
  have houts : c.ids.outs.length = c.scan.retMemberTypes.length := by
    simp [hc.ids, planSynthIds, freshPairs_length]
  have hins : c.ids.ins.length = c.scan.paramTypes.length := by
    simp [hc.ids, planSynthIds, freshPairs_length]
  simp only [EmitCtx.declarations, results_append, results_interfaceVars _ houts,
    results_interfaceVars _ hins, EmitCtx.freshIds]
  rw [hc.ids]
  simp only [planSynthIds, freshPairs_flatMap]
  rw [results_reuse (fun x => ⟨.typeVoid, [x]⟩) fun x => rfl,
    results_reuse (fun x => ⟨.typeInt, [x, 32, 0]⟩) fun x => rfl,
    results_reuse (fun x => ⟨.constant, [_, x, 0]⟩) fun x => rfl]
  rfl

theorem mem_ite_single {p : Prop} [Decidable p] {x y : Nat} :
    x ∈ (if p then [y] else []) ↔ p ∧ x = y := by
  split_ifs with h <;> simp [h]

theorem nodup_ite_single {p : Prop} [Decidable p] (y : Nat) : (if p then [y] else []).Nodup := by
  split_ifs <;> simp

theorem afterReuse_eq (id next : Nat) : afterReuse id next = if id = 0 then next+1 else next := by
  simp only [afterReuse, ne_eq]
  split_ifs <;> simp_all

theorem freshIds_nodup (c : EmitCtx) : c.freshIds.Nodup := by
  have h₁ := afterReuse_eq c.scan.voidId c.scan.bound
  simp only [EmitCtx.freshIds]
  generalize hf₁ : afterReuse c.scan.voidId c.scan.bound = f₁ at h₁ ⊢
  generalize hf₃ : f₁+1+2*c.scan.retMemberTypes.length+2*c.scan.paramTypes.length = f₃
  have h₄ := afterReuse_eq c.scan.uintTypeId f₃
  generalize hf₄ : afterReuse c.scan.uintTypeId f₃ = f₄ at h₄ ⊢
  have hone : [f₁].Nodup := by simp
  have hrange : ∀ a n, (List.range' a n).Nodup := fun a n => List.nodup_range'
  simp only [List.nodup_append, nodup_ite_single, hrange, hone, List.mem_append, mem_ite_single,
    List.mem_singleton, List.mem_range'_1, true_and]
  refine ⟨⟨⟨⟨?_, ?_⟩, ?_⟩, ?_⟩, ?_⟩ <;> intro x hx y hy <;> split_ifs at h₁ h₄ <;> omega

theorem freshIds_bounds {x : Nat} (h : x ∈ c.freshIds) : c.scan.bound ≤ x ∧ x < c.planned := by
  have h₁ := afterReuse_eq c.scan.voidId c.scan.bound
  simp only [EmitCtx.planned, planSynthIds]
  simp only [EmitCtx.freshIds] at h
  generalize hf₁ : afterReuse c.scan.voidId c.scan.bound = f₁ at h h₁ ⊢
  generalize hf₃ : f₁+1+2*c.scan.retMemberTypes.length+2*c.scan.paramTypes.length = f₃ at h ⊢
  have h₄ := afterReuse_eq c.scan.uintTypeId f₃
  generalize hf₄ : afterReuse c.scan.uintTypeId f₃ = f₄ at h h₄ ⊢
  have h₅ := afterReuse_eq c.scan.uintZeroId f₄
  simp only [List.mem_append, mem_ite_single, List.mem_singleton, List.mem_range'_1] at h
  split_ifs at h₁ h₄ h₅ <;> omega

theorem bound_le_planned (c : EmitCtx) : c.scan.bound < c.planned := by
  have h : afterReuse c.scan.voidId c.scan.bound ∈ c.freshIds := by simp [EmitCtx.freshIds]
  have hb := freshIds_bounds h
  omega

end Plan

section Defs

/-- Every fresh id, the extracts' included. -/
def EmitCtx.allFresh (c : EmitCtx) (f : Fn) : List Nat :=
  c.freshIds ++ List.range' c.planned (c.nextAfterAll c.planned f.blocks-c.planned)

theorem allFresh_nodup (c : EmitCtx) (f : Fn) : (c.allFresh f).Nodup := by
  refine List.nodup_append.mpr ⟨freshIds_nodup c, List.nodup_range', ?_⟩
  intro a ha b hb
  have h := (freshIds_bounds ha).2
  rw [List.mem_range'_1] at hb
  omega

theorem allFresh_bounds {x : Nat} (h : x ∈ c.allFresh f) :
    c.scan.bound ≤ x ∧ x < c.nextAfterAll c.planned f.blocks := by
  have hle := c.le_nextAfterAll f.blocks c.planned
  have hb := bound_le_planned c
  cases List.mem_append.mp h with
  | inl h =>
    have := freshIds_bounds h
    omega
  | inr h =>
    rw [List.mem_range'_1] at h
    omega

theorem count_results_filter (is : List Insn) (p : Insn → Bool) (x : Nat) :
    (results g is).count x =
      (results g (is.filter fun i => !p i)).count x+(results g (is.filter p)).count x := by
  induction is with
  | nil => rfl
  | cons i is ih =>
    rw [← List.singleton_append, results_append, List.count_append, ih]
    cases hp : p i
    · rw [List.filter_append, List.filter_append]
      simp only [results_append, List.count_append, List.filter_cons, hp, List.filter_nil,
        Bool.not_false, if_true]
      simp [results]
      omega
    · rw [List.filter_append, List.filter_append]
      simp only [results_append, List.count_append, List.filter_cons, hp, List.filter_nil,
        Bool.not_true, if_true]
      simp [results]
      omega

theorem results_deadCasts {is : List Insn} (ha : ∀ i ∈ is, i.arity = true) :
    results g (is.filter m.dropsCast) = (is.filter m.dropsCast).map (·.arg 1) := by
  induction is with
  | nil => rfl
  | cons i is ih =>
    have ih' := ih fun j hj => ha j (List.mem_cons_of_mem i hj)
    cases hd : m.dropsCast i with
    | false => simpa [hd] using ih'
    | true =>
      have hr := result_cast (g := g) (ha i List.mem_cons_self) (Module.dropsCast_recorded hd).1
      rw [List.filter_cons_of_pos hd, List.map_cons, ← ih', ← List.singleton_append,
        results_append, results_single, hr]
      rfl

/-- A function's definitions are those that stay and its dead casts. -/
theorem count_fn_defs {h : Fn} (ha : ∀ i ∈ h.insns, i.arity = true) (x : Nat) :
    (h.blocks.flatMap (Block.defs g)).count x =
      (h.liveDefs g m).count x+(h.deadCasts m).count x := by
  have hdead : h.deadCasts m = h.blocks.flatMap fun b => results g (b.insns.filter m.dropsCast) := by
    simp only [Fn.deadCasts, Fn.insns, List.filter_flatMap, List.map_flatMap]
    refine List.flatMap_congr fun b hb => ?_
    exact (results_deadCasts fun i hi => ha i (mem_insns hb hi)).symm
  rw [hdead]
  refine count_flatMap_add fun b _ => ?_
  simp only [Block.defs, Block.liveDefs, List.count_cons]
  have := count_results_filter (g := g) b.insns m.dropsCast x
  omega

theorem count_params (f : Fn) (x : Nat) :
    f.params.count x = f.loadedParams.count x+f.unloadedParams.count x := by
  simp only [Fn.loadedParams, Fn.unloadedParams]
  split <;> simp

/-- What function `h` of a module with entry `f` goes on defining. -/
def Fn.kept (g : Grammar) (m : Module) (f h : Fn) : List Nat :=
  h.id :: (if h.id = f.id then f.loadedParams else h.params) ++ h.liveDefs g m

theorem Module.Kernel.arity_insns (hm : m.Kernel g) {h : Fn} (hh : h ∈ m.fns) :
    ∀ i ∈ h.insns, i.arity = true :=
  fun i hi => hm.arity i (code_sub hh (insns_sub_code hi))

theorem count_others (hm : m.Kernel g) {hs : List Fn} (hmem : ∀ h ∈ hs, h ∈ m.fns)
    (hid : ∀ h ∈ hs, h.id ≠ f.id) (x : Nat) :
    (hs.flatMap (Fn.defs g)).count x =
      (hs.flatMap (Fn.kept g m f)).count x+(hs.flatMap (Fn.deadCasts m)).count x := by
  refine count_flatMap_add fun h hh => ?_
  simp only [Fn.defs, Fn.kept, if_neg (hid h hh), List.cons_append, List.count_cons,
    List.count_append, count_fn_defs (g := g) (m := m) (hm.arity_insns (hmem h hh))]
  omega

/-- Definitions of the module: those that stay and those that are lost. -/
theorem count_defs (hm : m.Kernel g) (hf : f ∈ m.fns) (x : Nat) :
    (m.defs g).count x = (m.liveDefs g f).count x+(m.lostIds f).count x := by
  obtain ⟨a, b, hab, hother⟩ := hm.ids.split hf
  have hmem : ∀ h ∈ a ++ b, h ∈ m.fns := by
    intro h hh
    rw [hab]
    rcases List.mem_append.mp hh with hh | hh <;> simp [hh]
  have ha := count_others (f := f) hm (fun h hh => hmem h (List.mem_append_left b hh))
    (fun h hh => hother h (List.mem_append_left b hh)) x
  have hb := count_others (f := f) hm (fun h hh => hmem h (List.mem_append_right a hh))
    (fun h hh => hother h (List.mem_append_right a hh)) x
  have hfd := count_fn_defs (g := g) (m := m) (hm.arity_insns hf) x
  have hp := count_params f x
  have hlive : m.liveDefs g f = results g m.globals ++ m.fns.flatMap (Fn.kept g m f) := rfl
  have hkept : Fn.kept g m f f = f.id :: f.loadedParams ++ f.liveDefs g m := by simp [Fn.kept]
  rw [hlive, Module.defs, Module.lostIds, hab]
  simp only [List.flatMap_append, List.flatMap_cons, List.count_append, ha, hb, hkept, Fn.defs,
    List.cons_append, List.count_cons]
  omega

theorem results_nil {is : List Insn} (h : ∀ i ∈ is, i.result g = none) : results g is = [] := by
  simpa [results] using h

theorem results_decorations : results g c.decorations = [] := by
  refine results_nil fun i hi => ?_
  simp only [EmitCtx.decorations, List.mem_append, List.mem_map] at hi
  obtain ⟨p, -, rfl⟩ | ⟨p, -, rfl⟩ := hi
  · simp only [outputDecoration, decorateBuiltin, decorateLocation]
    split_ifs <;> rfl
  · simp only [inputDecoration, decorateBuiltin, decorateLocation]
    split_ifs <;> rfl

theorem results_zoneA : results g c.zoneA = [] := by
  refine results_nil fun i hi => ?_
  simp only [EmitCtx.zoneA, EmitCtx.entryPoint, List.mem_append, List.mem_ite_nil_left,
    List.mem_ite_nil_right, List.mem_singleton] at hi
  obtain (⟨-, rfl⟩ | rfl) | ⟨-, rfl⟩ := hi <;> rfl

/-- The splices among the declarations define nothing. -/
theorem results_globals (hc : c.For g m f) {is : List Insn}
    (hg : ∀ i ∈ is, i.op.inGlobals = true ∧ i.arity = true) (z t : Bool) (n : Nat) :
    results g (emitAll c ⟨z, t, false, false, false, n⟩ is).2 = results g is := by
  induction is generalizing z t with
  | nil => rfl
  | cons i is ih =>
    obtain ⟨hi, ha⟩ := hg i List.mem_cons_self
    have hd : m.dropsCast i = false := dropsCast_of_ne (Op.inGlobals_ne hi rfl)
    have hpre : results g (if !t && i.op.isType then c.decorations else []) = [] := by
      split
      · exact results_decorations
      · rfl
    have hpost : results g (if !z && i.op == .memoryModel then c.zoneA else []) = [] := by
      split
      · exact results_zoneA
      · rfl
    simp only [emitAll, emitInsn_global hi, results_append, hpre, hpost,
      results_rewriteInsn hc ha, hd, ih fun j hj => hg j (List.mem_cons_of_mem i hj)]
    rw [← List.singleton_append (l := is), results_append, results_single]
    simp

theorem results_loads (hc : c.For g m f) (h : f.headerLines.isEmpty) :
    results g c.loads = f.params := by
  have hp : c.params.length = c.scan.paramTypes.length := by
    rw [hc.params h, hc.scan.params]
    simp [Fn.params, Fn.paramTypes]
  have hv := hc.inVars_length
  rw [← hc.params h, EmitCtx.loads]
  generalize c.params = ps at hp
  generalize c.scan.paramTypes = ts at hp hv
  generalize c.inVars = vs at hv
  induction ps generalizing ts vs with
  | nil => rfl
  | cons p ps ih =>
    cases ts with
    | nil => simp at hp
    | cons t ts =>
      cases vs with
      | nil => simp at hv
      | cons v vs =>
        have := ih ts (by simpa using hp) vs (by simpa using hv)
        simp only [List.zip_cons_cons, List.map_cons]
        rw [← List.singleton_append, results_append, this, results_single]
        rfl

theorem defs_rewriteFn (hc : c.For g m f) {h : Fn} (ha : ∀ i ∈ h.insns, i.arity = true)
    (hid : h.id ≠ f.id) : (c.rewriteFn h).defs g = Fn.kept g m f h := by
  have hblocks : (c.rewriteFn h).blocks.flatMap (Block.defs g) = h.liveDefs g m := by
    simp only [EmitCtx.rewriteFn, List.flatMap_map, Fn.liveDefs]
    refine List.flatMap_congr fun b hb => ?_
    simp only [Block.defs, Block.liveDefs, results_rewrite hc fun i hi => ha i (mem_insns hb hi)]
  rw [Fn.defs, hblocks, Fn.kept, if_neg hid]
  rfl

theorem params_rewriteEntry (n : Nat) : (c.rewriteEntry n f).params = [] := by
  have hnone : (c.rewriteEntry n f).header.filter isParam = [] := by
    simp only [EmitCtx.rewriteEntry]
    split
    · rfl
    · simp only [List.filter_append, List.append_eq_nil_iff, List.filter_eq_nil_iff]
      refine ⟨?_, ?_⟩
      · intro i hi
        simp only [EmitCtx.loads, List.mem_map] at hi
        obtain ⟨p, -, rfl⟩ := hi
        simp [isParam]
      · intro i hi
        simpa using (List.mem_filter.mp hi).2
  rw [Fn.params, hnone, List.map_nil]

theorem count_rewriteEntry (hm : m.Kernel g) (hc : c.For g m f) (hf : f ∈ m.fns)
    (hne : f.blocks ≠ []) (n x : Nat) :
    ((c.rewriteEntry n f).defs g).count x =
      (Fn.kept g m f f).count x+(List.range' n (c.nextAfterAll n f.blocks-n)).count x := by
  have hload : results g (if f.headerLines.isEmpty then c.loads else []) = f.loadedParams := by
    simp only [Fn.loadedParams]
    split
    · exact results_loads hc ‹_›
    · rfl
  have hbody := count_rewriteBody hc hc.outVars_length (hm.blockLaid hf) hne
    (if f.headerLines.isEmpty then c.loads else []) n x
  have hkept : Fn.kept g m f f = f.id :: f.loadedParams ++ f.liveDefs g m := by simp [Fn.kept]
  have hblocks : (c.rewriteEntry n f).blocks =
      c.rewriteBody n (if f.headerLines.isEmpty then c.loads else []) f.blocks := rfl
  have hid : (c.rewriteEntry n f).id = f.id := rfl
  rw [hload] at hbody
  rw [Fn.defs, params_rewriteEntry, hkept, hblocks, hid]
  simp only [List.cons_append, List.nil_append, List.count_cons, List.count_append, Fn.liveDefs]
  omega

/-- Definitions of the rewritten module: those that stay and the fresh ones. -/
theorem count_rewriteModule (hm : m.Kernel g) (hc : c.For g m f) (hf : f ∈ m.fns)
    (hne : f.blocks ≠ []) (x : Nat) :
    ((c.rewriteModule c.planned m f).defs g).count x =
      (m.liveDefs g f).count x+(c.allFresh f).count x := by
  obtain ⟨a, b, hab, hother⟩ := hm.ids.split hf
  have hmem : ∀ h ∈ a ++ b, h ∈ m.fns := by
    intro h hh
    rw [hab]
    rcases List.mem_append.mp hh with hh | hh <;> simp [hh]
  have hrest : ∀ hs : List Fn, (∀ h ∈ hs, h ∈ a ++ b) →
      (c.rewriteFns c.planned hs).flatMap (Fn.defs g) = hs.flatMap (Fn.kept g m f) := by
    intro hs hsub
    simp only [EmitCtx.rewriteFns, List.flatMap_map]
    refine List.flatMap_congr fun h hh => ?_
    have hid := hother h (hsub h hh)
    rw [if_neg (by rw [hc.fnId]; exact hid)]
    exact defs_rewriteFn hc (hm.arity_insns (hmem h (hsub h hh))) hid
  have hentry := count_rewriteEntry hm hc hf hne c.planned x
  have hfns : c.rewriteFns c.planned m.fns =
      c.rewriteFns c.planned a ++ c.rewriteEntry c.planned f :: c.rewriteFns c.planned b := by
    simp [EmitCtx.rewriteFns, hab, hc.fnId]
  have hglob := results_globals (c := c) hc (fun i hi =>
    ⟨hm.globals i hi, hm.arity i (globals_sub_code hi)⟩) false false c.planned
  have hlive : m.liveDefs g f = results g m.globals ++ m.fns.flatMap (Fn.kept g m f) := rfl
  rw [hlive, Module.defs, EmitCtx.allFresh]
  simp only [EmitCtx.rewriteModule, results_append, hglob, results_declarations hc]
  rw [hfns, hab]
  simp only [List.flatMap_append, List.flatMap_cons, List.count_append, hentry,
    hrest a (fun h hh => List.mem_append_left b hh),
    hrest b (fun h hh => List.mem_append_right a hh)]
  omega

/-- An id that stays is no longer lost. -/
theorem live_not_lost (hm : m.Kernel g) (hf : f ∈ m.fns) {x : Nat} (hl : x ∈ m.liveDefs g f) :
    x ∉ m.lostIds f := by
  intro hx
  have hcount := count_defs hm hf x
  have hone := List.nodup_iff_count_le_one.mp hm.ids.nodup x
  have h1 := List.count_pos_iff.mpr hl
  have h2 := List.count_pos_iff.mpr hx
  omega

theorem mem_defs_iff (hm : m.Kernel g) (hf : f ∈ m.fns) {x : Nat} :
    x ∈ m.defs g ↔ x ∈ m.liveDefs g f ∨ x ∈ m.lostIds f := by
  have hcount := count_defs hm hf x
  simp only [← List.count_pos_iff]
  omega

theorem mem_rewritten_iff (hm : m.Kernel g) (hc : c.For g m f) (hf : f ∈ m.fns)
    (hne : f.blocks ≠ []) {x : Nat} :
    x ∈ (c.rewriteModule c.planned m f).defs g ↔ x ∈ m.liveDefs g f ∨ x ∈ c.allFresh f := by
  have hcount := count_rewriteModule hm hc hf hne x
  simp only [← List.count_pos_iff]
  omega

/-- Each id of the rewritten module is defined once. -/
theorem rewritten_nodup (hm : m.Kernel g) (hc : c.For g m f) (hf : f ∈ m.fns)
    (hne : f.blocks ≠ []) : ((c.rewriteModule c.planned m f).defs g).Nodup := by
  refine List.nodup_iff_count_le_one.mpr fun x => ?_
  have hdefs := count_defs hm hf x
  have hone := List.nodup_iff_count_le_one.mp hm.ids.nodup x
  have hfresh := List.nodup_iff_count_le_one.mp (allFresh_nodup c f) x
  have hcount := count_rewriteModule hm hc hf hne x
  by_cases hx : x ∈ c.allFresh f
  · have hge := (allFresh_bounds hx).1
    have hnot : x ∉ m.defs g := by
      intro hd
      have hlt := (hm.ids.below x hd).2
      rw [← hc.scan.bound] at hlt
      omega
    have h0 := List.count_eq_zero.mpr hnot
    omega
  · have h0 := List.count_eq_zero.mpr hx
    omega

theorem rewritten_below (hm : m.Kernel g) (hc : c.For g m f) (hf : f ∈ m.fns)
    (hne : f.blocks ≠ []) : ∀ r ∈ (c.rewriteModule c.planned m f).defs g,
      0 < r ∧ r < (c.rewriteModule c.planned m f).bound := by
  intro r hr
  have hle := c.le_nextAfterAll f.blocks c.planned
  have hb := bound_le_planned c
  have hbound := hc.scan.bound
  have hfid := hm.ids.below f.id (List.mem_append_right _ (fn_mem_ids hf))
  simp only [EmitCtx.rewriteModule]
  cases (mem_rewritten_iff hm hc hf hne).mp hr with
  | inl hl =>
    have := hm.ids.below r ((mem_defs_iff hm hf).mpr (.inl hl))
    omega
  | inr hx =>
    have := allFresh_bounds hx
    omega

end Defs

end Lagfx.Spirv
