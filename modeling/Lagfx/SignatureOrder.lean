import Lagfx.SignatureUses
import Mathlib.Data.List.Flatten

/-! Order in the blocks of the rewritten module, and the instructions the pass keeps as
they are. -/
namespace Lagfx.Spirv
variable {g : Grammar} {m : Module} {f : Fn} {c : EmitCtx}

/-- What the pass passes over before the loads. -/
def Module.isEarly (m : Module) (i : Insn) : Bool :=
  i.op == .var || isLifetime i || m.isRecordedCast i

/-- What the casts before the loads cast. -/
def Module.earlySources (m : Module) (f : Fn) : List Nat :=
  match f.blocks with
  | [] => []
  | b :: _ => ((b.insns.takeWhile m.isEarly).filter fun i =>
      m.isRecordedCast i && !m.dropsCast i).map (·.arg 2)

/-- `i` may stand before `j`. -/
def Precedes (g : Grammar) (i j : Insn) : Prop :=
  i.op ≠ .phi → ∀ x ∈ i.uses g, j.result g ≠ some x

theorem result_rewriteAt (hc : c.For g m f) {j j' : Insn} (ha : j.arity = true) {n : Nat}
    (hj : j' ∈ c.rewriteAt n j) {r : Nat} (hr : j'.result g = some r) :
    j.result g = some r ∨ r ∈ c.extractIds n := by
  simp only [EmitCtx.rewriteAt] at hj
  split at hj
  · right
    rw [← results_returnStores hc.outVars_length n (j.arg 0)]
    exact mem_results hj hr
  · left
    have hmem : r ∈ results g (c.rewriteInsn j) := mem_results hj hr
    rw [results_rewriteInsn hc ha] at hmem
    split at hmem
    · simp at hmem
    · simpa using hmem

theorem extractIds_ge {n x : Nat} (hx : x ∈ c.extractIds n) : n ≤ x := by
  simp only [EmitCtx.extractIds] at hx
  split at hx
  · exact (List.mem_range'_1.mp hx).1
  · simp at hx

section Local
variable (hm : m.Kernel g) {h : Fn} (hh : h ∈ m.fns)
include hm hh

/-- Local results are no declaration's. -/
theorem local_not_global {b : Block} (hb : b ∈ h.blocks) {i : Insn} (hi : i ∈ b.insns) {r : Nat}
    (hr : i.result g = some r) : r ∉ results g m.globals ∧ r ∈ m.defs g := by
  have hmem : r ∈ m.fns.flatMap (Fn.defs g) := by
    refine List.mem_flatMap.mpr ⟨h, hh, List.mem_append_right _ ?_⟩
    exact List.mem_flatMap.mpr ⟨b, hb, List.mem_cons_of_mem _ (mem_results hi hr)⟩
  refine ⟨fun hg => ?_, List.mem_append_right _ hmem⟩
  exact (List.nodup_append.mp hm.ids.nodup).2.2 r hg r hmem rfl

theorem param_not_global {p : Nat} (hp : p ∈ h.params) :
    p ∉ results g m.globals ∧ p ∈ m.defs g := by
  have hmem : p ∈ m.fns.flatMap (Fn.defs g) := by
    refine List.mem_flatMap.mpr ⟨h, hh, List.mem_append_left _ (List.mem_cons_of_mem _ hp)⟩
  refine ⟨fun hg => ?_, List.mem_append_right _ hmem⟩
  exact (List.nodup_append.mp hm.ids.nodup).2.2 p hg p hmem rfl

end Local

section Order
variable (hm : m.Kernel g) (hc : c.For g m f)
include hm hc

theorem lt_planned_of_def {x : Nat} (hx : x ∈ m.defs g) : x < c.planned := by
  have hlt := (hm.ids.below x hx).2
  have hb := bound_le_planned c
  rw [hc.scan.bound] at hb
  omega

/-- Order of two instructions is kept by the rewriting. -/
theorem precedes_rewriteAt {h : Fn} (hh : h ∈ m.fns) {b : Block} (hb : b ∈ h.blocks) {i j : Insn}
    (hi : i ∈ b.insns) (hj : j ∈ b.insns) (hr : i.op ≠ .returnValue) (hij : Precedes g i j)
    {n : Nat} (hn : c.planned ≤ n) {i' j' : Insn} (hi' : i' ∈ c.rewriteAt n i)
    (hj' : j' ∈ c.rewriteAt n j) : Precedes g i' j' := by
  intro hphi x hx hres
  rw [EmitCtx.rewriteAt, if_neg hr] at hi'
  have hai := hm.arity_insns hh i (mem_insns hb hi)
  have haj := hm.arity_insns hh j (mem_insns hb hj)
  have hsp : isSpecBitcast i = false := by
    have : i.op ≠ .specConstantOp := Op.inBlock_ne ((hm.fns h hh).insns i (mem_insns hb hi)) rfl
    simp [isSpecBitcast, this]
  cases uses_rewriteInsn hc hai hi' hx with
  | inl hk =>
    have hu : x ∈ i.uses g := by
      simp only [Module.keptUses, hsp, Bool.false_eq_true, if_false] at hk
      split at hk
      · simp at hk
      · exact hk
    have hxd := hm.ids.closed i (code_sub hh (insns_sub_code (mem_insns hb hi))) x hu
    cases result_rewriteAt hc haj hj' hres with
    | inl hj0 =>
      refine hij ?_ x hu hj0
      intro hop
      have hkeep : c.rewriteInsn i = [i] :=
        EmitCtx.rewriteInsn_keep (by simp [hop]) (by simp [hop]) (by simp [drops, hop])
      rw [hkeep, List.mem_singleton] at hi'
      exact hphi (hi' ▸ hop)
    | inr he =>
      have := extractIds_ge he
      have := lt_planned_of_def hm hc hxd
      omega
  | inr hz =>
    subst hz
    cases result_rewriteAt hc haj hj' hres with
    | inl hj0 =>
      obtain ⟨hng, hd⟩ := local_not_global hm hh hb hj hj0
      cases hc.zero_cases with
      | inl h => exact hng h
      | inr h =>
        have hlt := (hm.ids.below _ hd).2
        have hge := (freshIds_bounds h).1
        rw [hc.scan.bound] at hge
        omega
    | inr he =>
      have hge := extractIds_ge he
      have hlt : c.ids.uintZeroId < c.planned := by
        cases hc.zero_cases with
        | inl h => exact lt_planned_of_def hm hc (List.mem_append_left _ h)
        | inr h => exact (freshIds_bounds h).2
      omega

omit hm in
/-- The stores of one return are in order. -/
theorem returnStores_ordered {n v : Nat} (hn : c.planned ≤ n)
    (hv : v < c.planned) (ht : ∀ t ∈ c.scan.retMemberTypes, t < c.planned) :
    (c.returnStores n v ++ [⟨.ret, []⟩] : List Insn).Pairwise (Precedes g) := by
  have hret : ∀ i : Insn, Precedes g i ⟨.ret, []⟩ := by
    intro i _ x _ h
    simp [Insn.result] at h
  refine List.pairwise_append.mpr ⟨?_, List.pairwise_singleton _ _, fun i _ j hj => ?_⟩
  · simp only [EmitCtx.returnStores]
    split
    · rw [List.pairwise_flatMap]
      refine ⟨?_, ?_⟩
      · rintro ⟨⟨o, t⟩, k⟩ -
        refine List.pairwise_pair.mpr ?_
        intro _ x _
        simp [Insn.result]
      · have hsorted : ((c.outVars.zip c.scan.retMemberTypes).zipIdx).Pairwise
            fun p q => p.2 < q.2 := by
          have hgen : ∀ (l : List (Nat × Nat)) k, (l.zipIdx k).Pairwise fun p q => p.2 < q.2 := by
            intro l
            induction l with
            | nil => simp
            | cons a l ih =>
              intro k
              rw [List.zipIdx_cons]
              refine List.pairwise_cons.mpr ⟨?_, ih (k+1)⟩
              intro q hq
              have := List.le_snd_of_mem_zipIdx hq
              omega
          exact hgen _ 0
        refine hsorted.imp_of_mem ?_
        rintro ⟨⟨o, t⟩, k⟩ ⟨⟨o', t'⟩, k'⟩ hp hq hlt i hi j hj
        have hz := List.of_mem_zip (List.fst_mem_of_mem_zipIdx hp)
        have ho : o < c.planned := (freshIds_bounds (hc.outVar_fresh hz.1)).2
        have htp := ht t hz.2
        intro _ x hx hres
        have hr : n+k' = x := by
          simp only [List.mem_cons, List.not_mem_nil, or_false] at hj
          obtain rfl | rfl := hj
          · simpa [Insn.result] using hres
          · simp [Insn.result] at hres
        have hxs : x = t ∨ x = v ∨ x = o ∨ x = n+k := by
          simp only [List.mem_cons, List.not_mem_nil, or_false] at hi
          obtain rfl | rfl := hi
          · have : x = t ∨ x = v := by simpa [Insn.uses] using hx
            tauto
          · have : x = o ∨ x = n+k := by simpa [Insn.uses] using hx
            tauto
        have hlt' : k < k' := hlt
        obtain h | h | h | h := hxs <;> omega
    · exact List.pairwise_singleton _ _
  · rw [List.mem_singleton] at hj
    exact hj ▸ hret i

theorem members_lt (hf : f ∈ m.fns) : ∀ t ∈ c.scan.retMemberTypes, t < c.planned := by
  intro t ht
  refine lt_planned_of_def hm hc ?_
  cases hc.scan.members with
  | inl h =>
    exact hm.ids.closed _ (globals_sub_code h.2) t (by simpa [Insn.uses] using ht)
  | inr h =>
    rw [h.2.1, List.mem_singleton] at ht
    exact List.mem_append_left _ ((hm.fns f hf).types t (by simp [ht]))

omit hm in
theorem rewriteInsn_pairwise {i : Insn} (ha : i.arity = true) (P : Insn → Insn → Prop) :
    (c.rewriteInsn i).Pairwise P := by
  generalize hl : c.rewriteInsn i = l
  have hr := rewritten hc ha
  rw [hl] at hr
  cases hr <;> simp

end Order

theorem pairwise_of_dropLast {P : Insn → Prop} {l : List Insn} (h : ∀ i ∈ l.dropLast, P i) :
    l.Pairwise fun i _ => P i := by
  induction l with
  | nil => simp
  | cons a l ih =>
    cases l with
    | nil => simp
    | cons b l =>
      refine List.pairwise_cons.mpr ⟨fun _ _ => h a (by simp), ih fun i hi => h i (by simp [hi])⟩

theorem takeWhile_congr {p q : Insn → Bool} {l : List Insn} (h : ∀ i ∈ l, p i = q i) :
    l.takeWhile p = l.takeWhile q := by
  induction l with
  | nil => rfl
  | cons a l ih =>
    simp only [List.takeWhile_cons, h a List.mem_cons_self,
      ih fun i hi => h i (List.mem_cons_of_mem a hi)]

theorem not_return_of_not_terminator {i : Insn} (h : i.op.isTerminator = false) :
    i.op ≠ .returnValue := by
  intro hr
  simp [hr, Op.isTerminator, Op.code] at h

section Blocks
variable (hm : m.Kernel g) (hc : c.For g m f)
include hm hc

/-- The instructions of a block, rewritten for the entry, stay in order. -/
theorem rewriteAt_ordered (hf : f ∈ m.fns) {b : Block} (hb : b ∈ f.blocks) {n : Nat}
    (hn : c.planned ≤ n) : (b.insns.flatMap (c.rewriteAt n)).Pairwise (Precedes g) := by
  have hlaid := hm.blockLaid hf b hb
  have hord : b.insns.Pairwise (Precedes g) := hm.ids.ordered f hf b hb
  have hinner := pairwise_of_dropLast hlaid.2.2
  rw [List.pairwise_flatMap]
  refine ⟨fun i hi => ?_, ?_⟩
  · have ha := hm.arity_insns hf i (mem_insns hb hi)
    simp only [EmitCtx.rewriteAt]
    split
    · rename_i hop
      refine returnStores_ordered hc hn ?_ (members_lt hm hc hf)
      refine lt_planned_of_def hm hc (hm.ids.closed i
        (code_sub hf (insns_sub_code (mem_insns hb hi))) _ ?_)
      have h1 : i.args.length = 1 := by simpa [Insn.arity, hop] using ha
      obtain ⟨v, hv⟩ := List.length_eq_one_iff.mp h1
      simp [Insn.uses, hop, hv, Insn.arg]
    · exact rewriteInsn_pairwise hc ha _
  · refine (hord.and hinner).imp_of_mem ?_
    rintro i j hi hj ⟨hij, ht⟩ i' hi' j' hj'
    exact precedes_rewriteAt hm hc hf hb hi hj (not_return_of_not_terminator ht) hij hn hi' hj'

/-- Blocks of the other functions stay in order. -/
theorem rewriteFn_ordered {h : Fn} (hh : h ∈ m.fns) :
    ∀ b' ∈ (c.rewriteFn h).blocks, b'.Ordered g := by
  intro b' hb'
  obtain ⟨b, hb, rfl⟩ := List.mem_map.mp hb'
  have hlaid := hm.blockLaid hh b hb
  have hord : b.insns.Pairwise (Precedes g) := hm.ids.ordered h hh b hb
  have hinner := pairwise_of_dropLast hlaid.2.2
  show (b.insns.flatMap c.rewriteInsn).Pairwise (Precedes g)
  rw [List.pairwise_flatMap]
  refine ⟨fun i hi => rewriteInsn_pairwise hc (hm.arity_insns hh i (mem_insns hb hi)) _, ?_⟩
  refine (hord.and hinner).imp_of_mem ?_
  rintro i j hi hj ⟨hij, ht⟩ i' hi' j' hj'
  have hr := not_return_of_not_terminator ht
  by_cases hjr : j.op = .returnValue
  · have hkeep : c.rewriteInsn j = [j] :=
      EmitCtx.rewriteInsn_keep (by simp [hjr]) (by simp [hjr]) (by simp [drops, hjr])
    rw [hkeep, List.mem_singleton] at hj'
    intro _ x _
    simp [hj', Insn.result, hjr]
  · rw [show c.rewriteInsn i = c.rewriteAt c.planned i by rw [EmitCtx.rewriteAt, if_neg hr]] at hi'
    rw [show c.rewriteInsn j = c.rewriteAt c.planned j by rw [EmitCtx.rewriteAt, if_neg hjr]] at hj'
    exact precedes_rewriteAt hm hc hh hb hi hj hr hij le_rfl hi' hj'

/-- Loads use only declarations and fresh ids. -/
theorem loads_precede (hf : f ∈ m.fns) {l j : Insn} (hl : l ∈ c.loads)
    (hj : ∀ r, j.result g = some r → r ∉ results g m.globals ∧ r ∉ c.freshIds) :
    Precedes g l j := by
  intro _ x hx hres
  obtain ⟨hng, hnf⟩ := hj x hres
  cases uses_loads hl hx with
  | inl h => exact hnf (hc.inVar_fresh h)
  | inr h =>
    rw [hc.scan.params] at h
    exact hng ((hm.fns f hf).types x (List.mem_cons_of_mem _ h))

theorem def_not_fresh {r : Nat} (hr : r ∈ m.defs g) : r ∉ c.freshIds := by
  intro h
  have hlt := (hm.ids.below r hr).2
  have hge := (freshIds_bounds h).1
  rw [hc.scan.bound] at hge
  omega

omit hm in
theorem result_loads (hl : f.headerLines.isEmpty) {l : Insn} (h : l ∈ c.loads) {r : Nat}
    (hr : l.result g = some r) : r ∈ f.params := by
  rw [← results_loads (g := g) hc hl]
  exact mem_results h hr

omit hm in
theorem isEarly_eq {i : Insn} (hb : i.op.inBlock = true) (ha : i.arity = true) :
    c.isEarly i = m.isEarly i := by
  rw [EmitCtx.isEarly, Module.isEarly, hc.isPointerCast ha]
  congr 2
  obtain ⟨op, args⟩ := i
  cases op <;> simp_all [drops, isLifetime, Op.inBlock]

omit hc in
theorem recordedPointer_global {t : Nat} (ht : t ∈ m.recordedPointers) :
    t ∈ results g m.globals := by
  obtain ⟨i, hi, rfl⟩ := List.mem_map.mp (List.mem_of_mem_take ht)
  obtain ⟨hi, hop⟩ := List.mem_filter.mp hi
  have hop' : i.op = .typePointer := by simpa using hop
  have h3 : i.args.length = 3 := by simpa [Insn.arity, hop'] using hm.arity i hi
  have hg := hm.mem_globals hi (by simp [hop', Op.inGlobals, Op.isTerminator, Op.code])
    (by simp [hop', Op.inBlock, Op.isType, Op.code]) (by simp [hop', Op.isLine, Op.code])
  refine mem_results hg ?_
  rw [← arg_eq (by omega)]
  simp [Insn.result, hop']

/-- What stands before the loads uses a parameter only through a cast. -/
theorem early_uses (hf : f ∈ m.fns) {b : Block} (hb : b ∈ f.blocks) {i : Insn} (hi : i ∈ b.insns)
    (he : m.isEarly i = true) {i' : Insn} (hi' : i' ∈ c.rewriteAt c.planned i) {x : Nat}
    (hx : x ∈ i'.uses g) (hp : x ∈ f.params) :
    m.isRecordedCast i = true ∧ m.dropsCast i = false ∧ x = i.arg 2 := by
  obtain ⟨hng, hd⟩ := param_not_global hm hf hp
  have hmem := mem_insns hb hi
  have ha := hm.arity_insns hf i hmem
  have hr : i.op ≠ .returnValue := by
    intro hr
    simp [Module.isEarly, isLifetime, Module.isRecordedCast, hr] at he
  rw [EmitCtx.rewriteAt, if_neg hr] at hi'
  generalize hl : c.rewriteInsn i = l at hi'
  have hrw := rewritten hc ha
  rw [hl] at hrw
  cases hrw with
  | undef h =>
    exact absurd (isSpecBitcast_op h).1 (Op.inBlock_ne ((hm.fns f hf).insns i hmem) rfl)
  | dead h => exact absurd hi' (by simp)
  | dropped h => exact absurd hi' (by simp)
  | chain h hdc =>
    refine ⟨h, hdc, ?_⟩
    rw [List.mem_singleton] at hi'
    subst hi'
    have hx' : x = i.arg 0 ∨ x = i.arg 2 ∨ x = c.ids.uintZeroId := by
      simpa [EmitCtx.asAccessChain, Insn.uses] using hx
    obtain h0 | h2 | hz := hx'
    · exact absurd (h0 ▸ recordedPointer_global hm (Module.isRecordedCast_op h).2) hng
    · exact h2
    · cases hc.zero_cases with
      | inl h => exact absurd (hz ▸ h) hng
      | inr h => exact absurd (hz ▸ h) (def_not_fresh hm hc hd)
  | kept hs hrc hdr =>
    rw [List.mem_singleton] at hi'
    rw [hi'] at hx
    have hop : i.op = .var := by
      simp only [Module.isEarly, hrc, Bool.or_false, Bool.or_eq_true, beq_iff_eq] at he
      cases he with
      | inl h => exact h
      | inr h =>
        obtain ⟨op, args⟩ := i
        cases op <;> simp_all [isLifetime, drops]
    exact absurd ((hm.fns f hf).locals i hmem hop x hx) hng

/-- First block: in order exactly when no early cast is of a parameter. -/
theorem rewriteFirst_ordered_iff (hf : f ∈ m.fns) (hl : f.headerLines.isEmpty) {b : Block}
    {bs : List Block} (hbs : f.blocks = b :: bs) :
    (c.rewriteFirst c.planned c.loads b).Ordered g ↔
      ∀ x ∈ m.earlySources f, x ∉ f.params := by
  have hb : b ∈ f.blocks := by simp [hbs]
  have hlaid := hm.blockLaid hf b hb
  have hall := rewriteAt_ordered hm hc hf hb (le_refl c.planned)
  rw [← List.takeWhile_append_dropWhile (p := c.isEarly) (l := b.insns), List.flatMap_append,
    List.pairwise_append] at hall
  obtain ⟨hearly, hlate, hcross⟩ := hall
  have htake : b.insns.takeWhile c.isEarly = b.insns.takeWhile m.isEarly :=
    takeWhile_congr fun i hi => isEarly_eq hc (hlaid.1 i hi).1 (hlaid.1 i hi).2
  have hmemE : ∀ i ∈ b.insns.takeWhile c.isEarly, i ∈ b.insns :=
    fun i hi => (List.takeWhile_sublist _).subset hi
  have hmemL : ∀ i ∈ b.insns.dropWhile c.isEarly, i ∈ b.insns :=
    fun i hi => (List.dropWhile_sublist _).subset hi
  have hlocal : ∀ j' ∈ (b.insns.dropWhile c.isEarly).flatMap (c.rewriteAt c.planned),
      ∀ r, j'.result g = some r → r ∉ results g m.globals ∧ r ∉ c.freshIds := by
    intro j' hj' r hr
    obtain ⟨j, hj, hj'⟩ := List.mem_flatMap.mp hj'
    have hja := hm.arity_insns hf j (mem_insns hb (hmemL j hj))
    cases result_rewriteAt hc hja hj' hr with
    | inl h =>
      obtain ⟨hng, hd⟩ := local_not_global hm hf hb (hmemL j hj) h
      exact ⟨hng, def_not_fresh hm hc hd⟩
    | inr h =>
      have hge := extractIds_ge h
      refine ⟨fun hg => ?_, fun hg => ?_⟩
      · have := lt_planned_of_def hm hc (List.mem_append_left _ hg)
        omega
      · have := (freshIds_bounds hg).2
        omega
  have hparams : ∀ l ∈ c.loads, ∀ r, l.result g = some r →
      r ∉ results g m.globals ∧ r ∉ c.freshIds := by
    intro l hl' r hr
    obtain ⟨hng, hd⟩ := param_not_global hm hf (result_loads hc hl hl' hr)
    exact ⟨hng, def_not_fresh hm hc hd⟩
  have hloads : c.loads.Pairwise (Precedes g) :=
    List.pairwise_of_forall_mem_list fun l hl' j hj => loads_precede hm hc hf hl' (hparams j hj)
  have hsources : m.earlySources f = ((b.insns.takeWhile c.isEarly).filter fun i =>
      m.isRecordedCast i && !m.dropsCast i).map (·.arg 2) := by
    rw [Module.earlySources, hbs, htake]
  rw [Block.Ordered, EmitCtx.rewriteFirst]
  constructor
  · intro hord x hx hp
    rw [hsources] at hx
    obtain ⟨i, hi, rfl⟩ := List.mem_map.mp hx
    obtain ⟨hi, hcast⟩ := List.mem_filter.mp hi
    simp only [Bool.and_eq_true, Bool.not_eq_true'] at hcast
    have hia := hm.arity_insns hf i (mem_insns hb (hmemE i hi))
    have hop := (Module.isRecordedCast_op hcast.1).1
    have hsp : isSpecBitcast i = false := by simp [isSpecBitcast, hop]
    have hrw : c.asAccessChain i ∈ c.rewriteAt c.planned i := by
      have hlt : c.scan.lifetimeOperandIds.contains (i.arg 1) = false := by
        rw [hc.scan.lifetimes]
        simpa [Module.dropsCast, hcast.1] using hcast.2
      have hpc : c.isPointerCast i = true := by rw [hc.isPointerCast hia]; exact hcast.1
      rw [EmitCtx.rewriteAt, if_neg (by simp [hop]), EmitCtx.rewriteInsn, hsp, hpc, hlt]
      simp
    rw [← results_loads (g := g) hc hl] at hp
    obtain ⟨l, hl', hres⟩ := List.mem_filterMap.mp hp
    have hbefore := (List.pairwise_append.mp hord).2.2 _ (List.mem_flatMap.mpr ⟨i, hi, hrw⟩) l
      (List.mem_append_left _ hl')
    exact hbefore (by simp [EmitCtx.asAccessChain]) (i.arg 2)
      (by simp [EmitCtx.asAccessChain, Insn.uses]) hres
  · intro h
    refine List.pairwise_append.mpr ⟨hearly, List.pairwise_append.mpr ⟨hloads, hlate,
      fun l hl' j hj => loads_precede hm hc hf hl' (hlocal j hj)⟩, ?_⟩
    intro e he l hl'
    cases List.mem_append.mp hl' with
    | inr hl' => exact hcross e he l hl'
    | inl hl' =>
      obtain ⟨i, hi, he'⟩ := List.mem_flatMap.mp he
      intro _ x hx hres
      have hp := result_loads hc hl hl' hres
      have hie : m.isEarly i = true := by
        rw [htake] at hi
        exact List.mem_takeWhile_imp hi
      obtain ⟨hrc, hdc, rfl⟩ := early_uses hm hc hf hb (hmemE i hi) hie he' hx hp
      refine h _ ?_ hp
      rw [hsources]
      exact List.mem_map.mpr ⟨i, List.mem_filter.mpr ⟨hi, by simp [hrc, hdc]⟩, rfl⟩

theorem rewriteBlocks_ordered (hf : f ∈ m.fns) {bs : List Block} (hbs : ∀ b ∈ bs, b ∈ f.blocks)
    {n : Nat} (hn : c.planned ≤ n) : ∀ b' ∈ c.rewriteBlocks n bs, b'.Ordered g := by
  intro b' hb'
  obtain ⟨b, hb, n', hn', -, rfl⟩ := mem_rewriteBlocks hb'
  exact rewriteAt_ordered hm hc hf (hbs b hb) (by omega)

/-- Blocks are in order exactly when no cast before the loads is of a parameter. -/
theorem rewritten_ordered_iff (hf : f ∈ m.fns) (hne : f.blocks ≠ []) :
    (∀ h ∈ (c.rewriteModule c.planned m f).fns, ∀ b ∈ h.blocks, b.Ordered g) ↔
      (f.headerLines.isEmpty → ∀ x ∈ m.earlySources f, x ∉ f.params) := by
  obtain ⟨b, bs, hbs⟩ := List.exists_cons_of_ne_nil hne
  have hn : c.planned ≤ c.nextAfter c.planned b := by
    have := c.nextAfter_eq c.planned b
    omega
  have hrest := rewriteBlocks_ordered hm hc hf (fun b' (hb' : b' ∈ bs) => by simp [hbs, hb']) hn
  have hentry : (∀ b' ∈ (c.rewriteEntry c.planned f).blocks, b'.Ordered g) ↔
      (f.headerLines.isEmpty → ∀ x ∈ m.earlySources f, x ∉ f.params) := by
    cases hl : f.headerLines.isEmpty with
    | true =>
      have hblocks : (c.rewriteEntry c.planned f).blocks =
          c.rewriteFirst c.planned c.loads b :: c.rewriteBlocks (c.nextAfter c.planned b) bs := by
        simp [EmitCtx.rewriteEntry, hl, hbs, EmitCtx.rewriteBody]
      rw [hblocks, ← rewriteFirst_ordered_iff hm hc hf hl hbs]
      simpa using fun _ => hrest
    | false =>
      have hblocks : (c.rewriteEntry c.planned f).blocks = c.rewriteBlocks c.planned f.blocks := by
        simp [EmitCtx.rewriteEntry, hl, EmitCtx.rewriteBody_nil]
      rw [hblocks]
      simpa using rewriteBlocks_ordered hm hc hf (fun b' hb' => hb') (le_refl c.planned)
  rw [← hentry]
  constructor
  · intro h
    exact h _ (List.mem_map.mpr ⟨f, hf, by rw [if_pos hc.fnId.symm]⟩)
  · intro h h' hh'
    obtain ⟨k, hk, rfl⟩ := List.mem_map.mp hh'
    split
    · rename_i hid
      rw [hc.fnId] at hid
      rw [hm.ids.fn_unique hf hk hid]
      exact h
    · exact rewriteFn_ordered hm hc hk

end Blocks

section Kept

/-- Instructions the pass drops or rewrites wherever they stand. -/
def Module.listed (m : Module) (i : Insn) : Bool :=
  drops false i || isSpecBitcast i || (i.op == .bitcast && m.isPointerType (i.arg 0))

/-- Instructions outside the drop and rewrite list, in order. -/
def Module.unlisted (m : Module) (f : Fn) : List Insn :=
  m.globals.filter (fun i => !m.listed i) ++ m.fns.flatMap fun h =>
    if h.id = f.id then
      f.headerLines ++ f.blocks.flatMap (fun b => ⟨.label, [b.label]⟩ ::
        b.insns.filter fun i => !m.listed i && i.op != .returnValue) ++
        ⟨.functionEnd, []⟩ :: f.trail
    else h.code.filter fun i => !m.listed i

theorem filter_sublist_flatMap {is : List Insn} {p : Insn → Bool} {rw : Insn → List Insn}
    (h : ∀ i ∈ is, p i = true → rw i = [i]) : (is.filter p).Sublist (is.flatMap rw) := by
  induction is with
  | nil => simp
  | cons i is ih =>
    have ih' := ih fun j hj => h j (List.mem_cons_of_mem i hj)
    cases hp : p i with
    | true =>
      rw [List.filter_cons_of_pos hp, List.flatMap_cons, h i List.mem_cons_self hp]
      exact ih'.cons_cons i
    | false =>
      rw [List.filter_cons_of_neg (by simp [hp]), List.flatMap_cons]
      exact ih'.trans (List.sublist_append_right _ _)

/-- A recorded pointer type is one of the module's. -/
theorem recorded_isPointerType (hm : m.Kernel g) {t : Nat} (h : t ∈ m.recordedPointers) :
    m.isPointerType t = true := by
  obtain ⟨j, hj, hj0⟩ := List.mem_map.mp (List.mem_of_mem_take h)
  obtain ⟨hj, hjo⟩ := List.mem_filter.mp hj
  have hjo' : j.op = .typePointer := by simpa using hjo
  have hg := hm.mem_globals hj (by simp [hjo', Op.inGlobals, Op.isTerminator, Op.code])
    (by simp [hjo', Op.inBlock, Op.isType, Op.code]) (by simp [hjo', Op.isLine, Op.code])
  exact List.any_eq_true.mpr ⟨j, hg, by simp [hjo', hj0]⟩

theorem rewriteInsn_unlisted (hm : m.Kernel g) (hc : c.For g m f) {i : Insn} (ha : i.arity = true)
    (hl : m.listed i = false) : c.rewriteInsn i = [i] := by
  simp only [Module.listed, Bool.or_eq_false_iff, Bool.and_eq_false_iff] at hl
  obtain ⟨⟨hd, hs⟩, hb⟩ := hl
  have hrec : m.isRecordedCast i = false := by
    cases hr : m.isRecordedCast i with
    | false => rfl
    | true =>
      obtain ⟨hop, hmem⟩ := Module.isRecordedCast_op hr
      simp [hop, recorded_isPointerType hm hmem] at hb
  rw [EmitCtx.rewriteInsn, hs, hc.isPointerCast ha, hrec, hd]
  rfl

theorem emitAll_sublist {is : List Insn} (hg : ∀ i ∈ is, i.op.inGlobals = true) (z t : Bool)
    (n : Nat) : (is.flatMap c.rewriteInsn).Sublist
      (emitAll c ⟨z, t, false, false, false, n⟩ is).2 := by
  induction is generalizing z t with
  | nil => simp
  | cons i is ih =>
    simp only [emitAll, emitInsn_global (hg i List.mem_cons_self), List.flatMap_cons]
    refine List.Sublist.append ?_ (ih (fun j hj => hg j (List.mem_cons_of_mem i hj)) _ _)
    exact (List.sublist_append_right _ _).trans (List.sublist_append_left _ _)

theorem rewriteBlocks_sublist (hm : m.Kernel g) (hc : c.For g m f) {bs : List Block}
    (ha : ∀ b ∈ bs, ∀ i ∈ b.insns, i.arity = true) (n : Nat) :
    (bs.flatMap fun b => ⟨.label, [b.label]⟩ ::
      b.insns.filter fun i => !m.listed i && i.op != .returnValue).Sublist
      ((c.rewriteBlocks n bs).flatMap Block.code) := by
  induction bs generalizing n with
  | nil => simp
  | cons b bs ih =>
    simp only [EmitCtx.rewriteBlocks, List.flatMap_cons]
    refine List.Sublist.append ?_ (ih (fun b' hb' => ha b' (List.mem_cons_of_mem b hb')) _)
    refine List.Sublist.cons_cons _ (filter_sublist_flatMap fun i hi hp => ?_)
    simp only [Bool.and_eq_true, Bool.not_eq_true', bne_iff_ne, ne_eq] at hp
    rw [EmitCtx.rewriteAt, if_neg hp.2]
    exact rewriteInsn_unlisted hm hc (ha b List.mem_cons_self i hi) hp.1

theorem rewriteBlocks_sub_body (n : Nat) (loads : List Insn) (bs : List Block) :
    ((c.rewriteBlocks n bs).flatMap Block.code).Sublist
      ((c.rewriteBody n loads bs).flatMap Block.code) := by
  cases bs with
  | nil => exact List.Sublist.refl _
  | cons b bs =>
    simp only [EmitCtx.rewriteBlocks, EmitCtx.rewriteBody, List.flatMap_cons]
    refine List.Sublist.append_right (List.Sublist.cons_cons _ ?_) _
    simp only [EmitCtx.rewriteBlock, EmitCtx.rewriteFirst]
    rw [← List.takeWhile_append_dropWhile (p := c.isEarly) (l := b.insns), List.flatMap_append,
      List.takeWhile_append_dropWhile]
    exact List.Sublist.append_left (List.sublist_append_right _ _) _

/-- Everything outside the list is kept, unchanged and in order. -/
theorem unlisted_sublist (hm : m.Kernel g) (hc : c.For g m f) (hf : f ∈ m.fns) :
    (m.unlisted f).Sublist (c.rewriteModule c.planned m f).code := by
  rw [Module.unlisted, Module.code]
  refine List.Sublist.append ?_ ?_
  · refine List.Sublist.trans ?_ (List.sublist_append_left _ _)
    refine List.Sublist.trans ?_ (emitAll_sublist hm.globals false false c.planned)
    exact filter_sublist_flatMap fun i hi hp =>
      rewriteInsn_unlisted hm hc (hm.arity i (globals_sub_code hi)) (by simpa using hp)
  · simp only [EmitCtx.rewriteModule, EmitCtx.rewriteFns, List.flatMap_map]
    refine List.Sublist.flatMap_right m.fns fun h hh => ?_
    by_cases hid : h.id = f.id
    · rw [if_pos hid, if_pos (by rw [hc.fnId]; exact hid), hm.ids.fn_unique hf hh hid]
      have hblocks := (rewriteBlocks_sublist hm hc (fun b hb i hi =>
        hm.arity_insns hf i (mem_insns hb hi)) c.planned).trans
        (rewriteBlocks_sub_body c.planned (if f.headerLines.isEmpty then c.loads else []) f.blocks)
      refine List.Sublist.append_right (List.Sublist.append ?_ hblocks) _
      simp only [EmitCtx.rewriteEntry]
      split
      · rename_i hl
        simp [List.isEmpty_iff.mp hl]
      · exact (List.sublist_append_right _ _).trans (List.sublist_cons_self _ _)
    · rw [if_neg hid, if_neg (by rw [hc.fnId]; exact hid), ← rewriteFn_code (hm.fns h hh)]
      exact filter_sublist_flatMap fun i hi hp =>
        rewriteInsn_unlisted hm hc (hm.arity i (code_sub hh hi)) (by simpa using hp)

end Kept

section Words

/-- Words an instruction becomes. -/
def Module.insnWords (m : Module) (i : Insn) : Nat :=
  if isSpecBitcast i then 3
  else if m.isRecordedCast i then if m.dropsCast i then 0 else 5
  else if drops false i then 0 else i.words

/-- Words a return becomes. -/
def EmitCtx.returnWords (c : EmitCtx) : Nat :=
  if c.scan.retIsStruct then 8*c.scan.retMemberTypes.length+1 else 4

/-- Words spliced in: metadata, decorations, declarations and loads. -/
def EmitCtx.splicedWords (c : EmitCtx) : Nat :=
  wordCount c.zoneA+wordCount c.decorations+wordCount c.declarations+wordCount c.loads

def EmitCtx.entryInsnWords (c : EmitCtx) (m : Module) (i : Insn) : Nat :=
  if i.op = .returnValue then c.returnWords else m.insnWords i

/-- Words of the entry, the loads apart. -/
def EmitCtx.entryWords (c : EmitCtx) (m : Module) (f : Fn) : Nat :=
  5+wordCount f.headerLines+(f.blocks.map fun b =>
    2+(b.insns.map (c.entryInsnWords m)).sum).sum+1+wordCount f.trail

/-- Words of the whole output after its header. -/
def EmitCtx.wordsAfter (c : EmitCtx) (m : Module) (f : Fn) : Nat :=
  c.splicedWords+(m.globals.map m.insnWords).sum +
    (m.fns.map fun h =>
      if h.id = f.id then c.entryWords m f else (h.code.map m.insnWords).sum).sum

theorem wordCount_append (a b : List Insn) : wordCount (a ++ b) = wordCount a+wordCount b := by
  simp [wordCount]

theorem wordCount_cons (i : Insn) (is : List Insn) :
    wordCount (i :: is) = i.words+wordCount is := by
  simp [wordCount]

theorem wordCount_nil : wordCount [] = 0 := rfl

theorem wordCount_flatMap {α : Type*} {l : List α} {F : α → List Insn} {w : α → Nat}
    (h : ∀ a ∈ l, wordCount (F a) = w a) : wordCount (l.flatMap F) = (l.map w).sum := by
  induction l with
  | nil => rfl
  | cons a l ih =>
    rw [List.flatMap_cons, wordCount_append, h a List.mem_cons_self,
      ih fun b hb => h b (List.mem_cons_of_mem a hb), List.map_cons, List.sum_cons]

/-- What is spliced at the first of several places is spliced once. -/
theorem wordCount_once (t p q : Bool) (is : List Insn) :
    wordCount (if !t && p then is else []) +
        (if !(t || p) && q then wordCount is else 0) =
      if !t && (p || q) then wordCount is else 0 := by
  cases t <;> cases p <;> cases q <;> simp [wordCount_nil]

/-- Words of a return, one store or an extract and a store for each member. -/
theorem wordCount_returnStores (hlen : c.outVars.length = c.scan.retMemberTypes.length)
    (n v : Nat) : wordCount (c.returnStores n v ++ [⟨.ret, []⟩]) = c.returnWords := by
  rw [wordCount_append, EmitCtx.returnStores, EmitCtx.returnWords]
  split
  · rw [wordCount_flatMap (w := fun _ => 8) fun p _ => rfl]
    simp [hlen, wordCount, Insn.words, Nat.mul_comm]
  · rfl

variable (hm : m.Kernel g) (hc : c.For g m f)
include hm hc

omit hm in
theorem wordCount_rewriteInsn {i : Insn} (ha : i.arity = true) :
    wordCount (c.rewriteInsn i) = m.insnWords i := by
  generalize hl : c.rewriteInsn i = l
  have hr := rewritten hc ha
  rw [hl] at hr
  cases hr with
  | undef h => simp [Module.insnWords, h, wordCount, Insn.words]
  | dead h =>
    have hrec := (Module.dropsCast_recorded h).1
    have hs : isSpecBitcast i = false := by
      simp [isSpecBitcast, (Module.isRecordedCast_op hrec).1]
    simp [Module.insnWords, hs, hrec, h, wordCount]
  | chain h hd =>
    have hs : isSpecBitcast i = false := by simp [isSpecBitcast, (Module.isRecordedCast_op h).1]
    simp [Module.insnWords, hs, h, hd, wordCount, Insn.words, EmitCtx.asAccessChain]
  | dropped h =>
    have hs : isSpecBitcast i = false := by
      obtain ⟨op, args⟩ := i
      cases op <;> simp_all [isSpecBitcast, drops]
    have hrec : m.isRecordedCast i = false := by
      obtain ⟨op, args⟩ := i
      cases op <;> simp_all [Module.isRecordedCast, drops]
    simp [Module.insnWords, hs, hrec, h, wordCount]
  | kept hs hr hd => simp [Module.insnWords, hs, hr, hd, wordCount]

omit hm in
theorem wordCount_rewriteAt {i : Insn} (ha : i.arity = true) (n : Nat) :
    wordCount (c.rewriteAt n i) = c.entryInsnWords m i := by
  simp only [EmitCtx.rewriteAt, EmitCtx.entryInsnWords]
  split
  · exact wordCount_returnStores hc.outVars_length n (i.arg 0)
  · exact wordCount_rewriteInsn hc ha

omit hm in
theorem wordCount_rewriteBlocks {bs : List Block}
    (ha : ∀ b ∈ bs, ∀ i ∈ b.insns, i.arity = true) (n : Nat) :
    wordCount ((c.rewriteBlocks n bs).flatMap Block.code) =
      (bs.map fun b => 2+(b.insns.map (c.entryInsnWords m)).sum).sum := by
  induction bs generalizing n with
  | nil => rfl
  | cons b bs ih =>
    have hb := wordCount_flatMap (F := c.rewriteAt n) fun i hi =>
      wordCount_rewriteAt hc (ha b List.mem_cons_self i hi) n
    simp only [EmitCtx.rewriteBlocks, EmitCtx.rewriteBlock, List.flatMap_cons, wordCount_append,
      Block.code, wordCount_cons, hb, ih fun b' hb' => ha b' (List.mem_cons_of_mem b hb'),
      List.map_cons, List.sum_cons, Insn.words, List.length_cons, List.length_nil]

omit hm hc in
theorem wordCount_rewriteBody {bs : List Block} (hne : bs ≠ []) (n : Nat) (loads : List Insn) :
    wordCount ((c.rewriteBody n loads bs).flatMap Block.code) =
      wordCount loads+wordCount ((c.rewriteBlocks n bs).flatMap Block.code) := by
  cases bs with
  | nil => exact absurd rfl hne
  | cons b bs =>
    have hsplit : b.insns.flatMap (c.rewriteAt n) =
        (b.insns.takeWhile c.isEarly).flatMap (c.rewriteAt n) ++
          (b.insns.dropWhile c.isEarly).flatMap (c.rewriteAt n) := by
      rw [← List.flatMap_append, List.takeWhile_append_dropWhile]
    simp only [EmitCtx.rewriteBlocks, EmitCtx.rewriteBlock, EmitCtx.rewriteBody,
      EmitCtx.rewriteFirst, List.flatMap_cons, wordCount_append, Block.code, wordCount_cons, hsplit]
    omega

omit hm in
theorem wordCount_globals {is : List Insn}
    (hg : ∀ i ∈ is, i.op.inGlobals = true ∧ i.arity = true) (z t : Bool) (n : Nat) :
    wordCount (emitAll c ⟨z, t, false, false, false, n⟩ is).2 =
      (is.map m.insnWords).sum+(if !t && is.any (·.op.isType) then wordCount c.decorations else 0) +
        (if !z && is.any (·.op == .memoryModel) then wordCount c.zoneA else 0) := by
  induction is generalizing z t with
  | nil => simp [emitAll, wordCount]
  | cons i is ih =>
    obtain ⟨hi, ha⟩ := hg i List.mem_cons_self
    simp only [emitAll, emitInsn_global hi, wordCount_append, wordCount_rewriteInsn hc ha,
      ih fun j hj => hg j (List.mem_cons_of_mem i hj), List.map_cons, List.sum_cons]
    rw [List.any_cons, List.any_cons, ← wordCount_once, ← wordCount_once]
    omega

theorem wordCount_entry (hf : f ∈ m.fns) (hne : f.blocks ≠ []) (n : Nat) :
    wordCount (c.rewriteEntry n f).code = c.entryWords m f+wordCount c.loads := by
  have hbody := wordCount_rewriteBody (c := c) hne n
    (if f.headerLines.isEmpty then c.loads else [])
  rw [wordCount_rewriteBlocks hc fun b hb i hi => hm.arity_insns hf i (mem_insns hb hi)] at hbody
  simp only [Fn.code, wordCount_append, wordCount_cons, EmitCtx.rewriteEntry, hbody,
    EmitCtx.entryWords]
  cases hl : f.headerLines.isEmpty with
  | true =>
    have hnil : f.headerLines = [] := by simpa using hl
    simp [hnil, wordCount_nil, Fn.head, Insn.words]
    omega
  | false =>
    simp [wordCount_nil, wordCount_append, Fn.head, Insn.words]
    omega

/-- Length of the output. -/
theorem wordCount_rewriteModule (hf : f ∈ m.fns) (hne : f.blocks ≠ []) :
    wordCount (c.rewriteModule c.planned m f).code = c.wordsAfter m f := by
  obtain ⟨a, b, hab, hother⟩ := hm.ids.split hf
  have hmem : ∀ h ∈ a ++ b, h ∈ m.fns := by
    intro h hh
    rw [hab]
    rcases List.mem_append.mp hh with hh | hh <;> simp [hh]
  have hglob := wordCount_globals hc (fun i hi =>
    ⟨hm.globals i hi, hm.arity i (globals_sub_code hi)⟩) false false c.planned
  have hmodel : m.globals.any (·.op == .memoryModel) = true := hm.any_memoryModel
  have htype : m.globals.any (·.op.isType) = true :=
    List.any_eq_true.mpr ⟨_, (hm.fns f hf).type, rfl⟩
  rw [hmodel, htype] at hglob
  have hrest : ∀ hs : List Fn, (∀ h ∈ hs, h ∈ a ++ b) →
      wordCount ((c.rewriteFns c.planned hs).flatMap Fn.code) = (hs.map fun h =>
        if h.id = f.id then c.entryWords m f else (h.code.map m.insnWords).sum).sum := by
    intro hs hsub
    simp only [EmitCtx.rewriteFns, List.flatMap_map]
    refine wordCount_flatMap fun h hh => ?_
    have hid := hother h (hsub h hh)
    rw [if_neg (by rw [hc.fnId]; exact hid), if_neg hid,
      ← rewriteFn_code (hm.fns h (hmem h (hsub h hh)))]
    exact wordCount_flatMap fun i hi =>
      wordCount_rewriteInsn hc (hm.arity i (code_sub (hmem h (hsub h hh)) hi))
  have hfns : c.rewriteFns c.planned m.fns =
      c.rewriteFns c.planned a ++ c.rewriteEntry c.planned f :: c.rewriteFns c.planned b := by
    simp [EmitCtx.rewriteFns, hab, hc.fnId]
  have hra := hrest a fun h hh => List.mem_append_left b hh
  have hrb := hrest b fun h hh => List.mem_append_right a hh
  have hent := wordCount_entry hm hc hf hne c.planned
  simp only [Module.code, EmitCtx.rewriteModule, wordCount_append, hglob, hfns,
    List.flatMap_append, List.flatMap_cons, hra, hrb, hent, EmitCtx.wordsAfter,
    EmitCtx.splicedWords]
  rw [hab]
  simp only [List.map_append, List.map_cons, List.sum_append, List.sum_cons, Bool.not_false,
    Bool.true_and, if_true]
  omega

end Words

end Lagfx.Spirv
