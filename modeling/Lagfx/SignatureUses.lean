import Lagfx.SignatureIds

/-! Uses in the rewritten module: each used id is defined exactly when nothing that
stays uses a lost id, and in order exactly when no cast comes before the parameter it
casts is loaded. -/
namespace Lagfx.Spirv
variable {g : Grammar} {m : Module} {f : Fn} {c : EmitCtx}

/-- Ids an instruction goes on using. -/
def Module.keptUses (g : Grammar) (m : Module) (i : Insn) : List Nat :=
  if drops false i || m.dropsCast i then []
  else if isSpecBitcast i then i.args.take 1 else i.uses g

/-- A return of no members. -/
def Module.returnsNothing (m : Module) (f : Fn) : Bool :=
  m.globals.contains ⟨.typeStruct, [f.retType]⟩

def Module.entryUses (g : Grammar) (m : Module) (f : Fn) (i : Insn) : List Nat :=
  if i.op = .returnValue ∧ m.returnsNothing f then [] else m.keptUses g i

/-- Ids the instructions of the module go on using; the head and the parameters of the
entry are written anew. -/
def Module.usesAfter (g : Grammar) (m : Module) (f : Fn) : List Nat :=
  m.globals.flatMap (m.keptUses g) ++ m.fns.flatMap fun h =>
    if h.id = f.id then
      (f.headerLines ++ f.trail).flatMap (·.uses g) ++ f.insns.flatMap (m.entryUses g f)
    else h.code.flatMap (m.keptUses g)

/-- A C string: bytes other than zero. -/
def CString (s : List Nat) : Prop := s ≠ [] ∧ ∀ b ∈ s, 0 < b ∧ b < 256

theorem afterString_pack {s : List Nat} (hs : ∀ b ∈ s, 0 < b ∧ b < 256) (vs : List Nat) :
    afterString (packString s ++ vs) = vs := by
  fun_induction packString s with
  | case1 a b d e s ih =>
    have ha := hs a (by simp)
    have hb := hs b (by simp)
    have hd := hs d (by simp)
    have he := hs e (by simp)
    have hw : endsString (a+b*256+d*65536+e*16777216) = false := by
      simp only [endsString, Bool.or_eq_false_iff, beq_eq_false_iff_ne]
      omega
    have ih' := ih fun x hx => hs x (by simp [hx])
    simpa [afterString, hw] using ih'
  | case2 a b d =>
    have ha := hs a (by simp)
    have hb := hs b (by simp)
    have hd := hs d (by simp)
    have hw : endsString (a+b*256+d*65536) = true := by
      simp only [endsString, Bool.or_eq_true, beq_iff_eq]
      omega
    simp [afterString, hw]
  | case3 a b =>
    have ha := hs a (by simp)
    have hb := hs b (by simp)
    have hw : endsString (a+b*256) = true := by
      simp only [endsString, Bool.or_eq_true, beq_iff_eq]
      omega
    simp [afterString, hw]
  | case4 a =>
    have ha := hs a (by simp)
    have hw : endsString a = true := by
      simp only [endsString, Bool.or_eq_true, beq_iff_eq]
      omega
    simp [afterString, hw]
  | case5 => simp [afterString, endsString]

/-- Ids with a definition in the rewritten module. -/
def EmitCtx.Supplied (g : Grammar) (m : Module) (f : Fn) (c : EmitCtx) (x : Nat) : Prop :=
  x ∈ m.liveDefs g f ∨ x ∈ c.allFresh f

section Supplied

theorem supplied_global {x : Nat} (h : x ∈ results g m.globals) : c.Supplied g m f x :=
  .inl (List.mem_append_left _ h)

theorem supplied_fresh {x : Nat} (h : x ∈ c.freshIds) : c.Supplied g m f x :=
  .inr (List.mem_append_left _ h)

theorem EmitCtx.For.outs_fresh (hc : c.For g m f) {p : Nat × Nat} (hp : p ∈ c.ids.outs) :
    p.1 ∈ c.freshIds ∧ p.2 ∈ c.freshIds := by
  have hmem : ∀ x ∈ [p.1, p.2], x ∈ c.ids.outs.flatMap fun p => [p.1, p.2] :=
    fun x hx => List.mem_flatMap.mpr ⟨p, hp, hx⟩
  simp only [hc.ids, planSynthIds, freshPairs_flatMap] at hmem
  simp only [EmitCtx.freshIds, List.mem_append]
  exact ⟨.inl (.inr (hmem p.1 (by simp))), .inl (.inr (hmem p.2 (by simp)))⟩

theorem EmitCtx.For.ins_fresh (hc : c.For g m f) {p : Nat × Nat} (hp : p ∈ c.ids.ins) :
    p.1 ∈ c.freshIds ∧ p.2 ∈ c.freshIds := by
  have hmem : ∀ x ∈ [p.1, p.2], x ∈ c.ids.ins.flatMap fun p => [p.1, p.2] :=
    fun x hx => List.mem_flatMap.mpr ⟨p, hp, hx⟩
  simp only [hc.ids, planSynthIds, freshPairs_flatMap] at hmem
  simp only [EmitCtx.freshIds, List.mem_append]
  exact ⟨.inr (hmem p.1 (by simp)), .inr (hmem p.2 (by simp))⟩

theorem EmitCtx.For.outVar_fresh (hc : c.For g m f) {x : Nat} (hx : x ∈ c.outVars) :
    x ∈ c.freshIds := by
  obtain ⟨p, hp, rfl⟩ := List.mem_map.mp hx
  exact (hc.outs_fresh hp).2

theorem EmitCtx.For.inVar_fresh (hc : c.For g m f) {x : Nat} (hx : x ∈ c.inVars) :
    x ∈ c.freshIds := by
  obtain ⟨p, hp, rfl⟩ := List.mem_map.mp hx
  exact (hc.ins_fresh hp).2

theorem EmitCtx.For.voidFnType_fresh (hc : c.For g m f) : c.ids.voidFnTypeId ∈ c.freshIds := by
  simp [hc.ids, planSynthIds, EmitCtx.freshIds]

theorem EmitCtx.For.void_supplied (hc : c.For g m f) : c.Supplied g m f c.ids.voidId := by
  by_cases h : c.scan.voidId = 0
  · refine supplied_fresh ?_
    simp [hc.ids, planSynthIds, EmitCtx.freshIds, reuseOr, h]
  · have : c.ids.voidId = c.scan.voidId := by simp [hc.ids, planSynthIds, reuseOr, h]
    rw [this]
    exact supplied_global (hc.scan.void h)

theorem EmitCtx.For.uint_supplied (hc : c.For g m f) : c.Supplied g m f c.ids.uintTypeId := by
  by_cases h : c.scan.uintTypeId = 0
  · refine supplied_fresh ?_
    simp [hc.ids, planSynthIds, EmitCtx.freshIds, reuseOr, h]
  · have : c.ids.uintTypeId = c.scan.uintTypeId := by simp [hc.ids, planSynthIds, reuseOr, h]
    rw [this]
    exact supplied_global (mem_results (hc.scan.uint h) rfl)

/-- The zero index is a declaration of the module or a fresh id. -/
theorem EmitCtx.For.zero_cases (hc : c.For g m f) :
    c.ids.uintZeroId ∈ results g m.globals ∨ c.ids.uintZeroId ∈ c.freshIds := by
  by_cases h : c.scan.uintZeroId = 0
  · right
    simp [hc.ids, planSynthIds, EmitCtx.freshIds, reuseOr, h]
  · left
    have : c.ids.uintZeroId = c.scan.uintZeroId := by simp [hc.ids, planSynthIds, reuseOr, h]
    rw [this]
    obtain ⟨t, a, b, hglob, -⟩ := hc.scan.zero h
    exact mem_results (i := ⟨.constant, [t, c.scan.uintZeroId, 0]⟩) (by simp [hglob]) rfl

theorem EmitCtx.For.zero_supplied (hc : c.For g m f) : c.Supplied g m f c.ids.uintZeroId := by
  cases hc.zero_cases with
  | inl h => exact supplied_global h
  | inr h => exact supplied_fresh h

end Supplied

section Uses

theorem take_one_args {i : Insn} (h : 0 < i.args.length) : i.args.take 1 = [i.arg 0] := by
  rw [List.take_one, List.head?_eq_getElem?, arg_eq h]
  rfl

/-- Uses of what an instruction is rewritten to. -/
theorem uses_rewriteInsn (hc : c.For g m f) {i i' : Insn} (ha : i.arity = true)
    (hi : i' ∈ c.rewriteInsn i) {x : Nat} (hx : x ∈ i'.uses g) :
    x ∈ m.keptUses g i ∨ x = c.ids.uintZeroId := by
  generalize hl : c.rewriteInsn i = l at hi
  have hr := rewritten hc ha
  rw [hl] at hr
  cases hr with
  | undef h =>
    obtain ⟨hop, h3, -⟩ := isSpecBitcast_op h
    have hd : m.dropsCast i = false := dropsCast_of_ne (by simp [hop])
    have hdr : drops false i = false := by simp [drops, hop]
    rw [List.mem_singleton] at hi
    subst hi
    left
    have harg := take_one_args (i := i) (by omega)
    simpa [Module.keptUses, hd, hdr, h, harg, Insn.uses] using hx
  | dead h => exact absurd hi (by simp)
  | chain h hd =>
    obtain ⟨hop, -⟩ := Module.isRecordedCast_op h
    have h3 : i.args.length = 3 := by simpa [Insn.arity, hop] using ha
    have hdr : drops false i = false := by simp [drops, hop]
    have hs : isSpecBitcast i = false := by simp [isSpecBitcast, hop]
    rw [List.mem_singleton] at hi
    subst hi
    obtain ⟨t, r, v, hargs⟩ := List.length_eq_three.mp h3
    simp only [EmitCtx.asAccessChain, Insn.uses, Insn.arg, hargs] at hx
    simp only [Module.keptUses, hd, hdr, hs, Insn.uses, hop, hargs]
    simp at hx ⊢
    tauto
  | dropped h => exact absurd hi (by simp)
  | kept hs hr hd =>
    have hdc : m.dropsCast i = false := by simp [Module.dropsCast, hr]
    rw [List.mem_singleton] at hi
    subst hi
    left
    simpa [Module.keptUses, hdc, hd, hs] using hx

/-- What goes on being used is used by what the instruction is rewritten to. -/
theorem keptUses_rewriteInsn (hc : c.For g m f) {i : Insn} (ha : i.arity = true) {x : Nat}
    (hx : x ∈ m.keptUses g i) : ∃ i' ∈ c.rewriteInsn i, x ∈ i'.uses g := by
  generalize hl : c.rewriteInsn i = l
  have hr := rewritten hc ha
  rw [hl] at hr
  cases hr with
  | undef h =>
    obtain ⟨hop, h3, -⟩ := isSpecBitcast_op h
    have hd : m.dropsCast i = false := dropsCast_of_ne (by simp [hop])
    have hdr : drops false i = false := by simp [drops, hop]
    have harg := take_one_args (i := i) (by omega)
    refine ⟨_, List.mem_singleton.mpr rfl, ?_⟩
    simpa [Module.keptUses, hd, hdr, h, harg, Insn.uses] using hx
  | dead h => simp [Module.keptUses, h] at hx
  | chain h hd =>
    obtain ⟨hop, -⟩ := Module.isRecordedCast_op h
    have h3 : i.args.length = 3 := by simpa [Insn.arity, hop] using ha
    have hdr : drops false i = false := by simp [drops, hop]
    have hs : isSpecBitcast i = false := by simp [isSpecBitcast, hop]
    refine ⟨_, List.mem_singleton.mpr rfl, ?_⟩
    obtain ⟨t, r, v, hargs⟩ := List.length_eq_three.mp h3
    simp only [Module.keptUses, hd, hdr, hs, Insn.uses, hop, hargs] at hx
    simp only [EmitCtx.asAccessChain, Insn.uses, Insn.arg, hargs]
    simp at hx ⊢
    tauto
  | dropped h => simp [Module.keptUses, h] at hx
  | kept hs hr hd =>
    have hdc : m.dropsCast i = false := by simp [Module.dropsCast, hr]
    refine ⟨i, List.mem_singleton.mpr rfl, ?_⟩
    simpa [Module.keptUses, hdc, hd, hs] using hx

theorem uses_zoneA (hs : ∀ b ∈ c.entry, 0 < b ∧ b < 256) {i : Insn} (hi : i ∈ c.zoneA) {x : Nat}
    (hx : x ∈ i.uses g) : x = c.scan.fnId ∨ x ∈ c.outVars ∨ x ∈ c.inVars := by
  simp only [EmitCtx.zoneA, EmitCtx.entryPoint, List.mem_append, List.mem_ite_nil_left,
    List.mem_ite_nil_right, List.mem_singleton] at hi
  obtain (⟨-, rfl⟩ | rfl) | ⟨-, rfl⟩ := hi
  · simp [Insn.uses] at hx
  · simpa [Insn.uses, afterString_pack hs] using hx
  · simp [Insn.uses] at hx
    exact .inl hx

theorem uses_decorations {i : Insn} (hi : i ∈ c.decorations) {x : Nat} (hx : x ∈ i.uses g) :
    x ∈ c.outVars ∨ x ∈ c.inVars := by
  simp only [EmitCtx.decorations, List.mem_append, List.mem_map] at hi
  obtain ⟨⟨v, k⟩, hp, rfl⟩ | ⟨⟨v, k⟩, hp, rfl⟩ := hi
  · have hv : x = v := by
      simp only [outputDecoration, decorateBuiltin, decorateLocation] at hx
      split_ifs at hx <;> simpa [Insn.uses] using hx
    exact .inl (hv ▸ List.fst_mem_of_mem_zipIdx hp)
  · have hv : x = v := by
      simp only [inputDecoration, decorateBuiltin, decorateLocation] at hx
      split_ifs at hx <;> simpa [Insn.uses] using hx
    exact .inr (hv ▸ List.fst_mem_of_mem_zipIdx hp)

theorem uses_interfaceVar {k : Nat} {p : (Nat × Nat) × Nat} {i : Insn} (hi : i ∈ interfaceVar k p)
    {x : Nat} (hx : x ∈ i.uses g) : x = p.1.1 ∨ x = p.2 := by
  simp only [interfaceVar, List.mem_cons, List.not_mem_nil, or_false] at hi
  obtain rfl | rfl := hi
  · exact .inr (by simpa [Insn.uses] using hx)
  · exact .inl (by simpa [Insn.uses] using hx)

theorem uses_declarations (hc : c.For g m f) {i : Insn} (hi : i ∈ c.declarations) {x : Nat}
    (hx : x ∈ i.uses g) :
    c.Supplied g m f x ∨ x ∈ c.scan.retMemberTypes ∨ x ∈ c.scan.paramTypes := by
  simp only [EmitCtx.declarations, List.mem_append, List.mem_ite_nil_right, List.mem_singleton,
    List.mem_flatMap] at hi
  obtain ((((⟨-, rfl⟩ | ⟨-, rfl⟩) | ⟨-, rfl⟩) | rfl) | ⟨p, hp, hi⟩) | ⟨p, hp, hi⟩ := hi
  · simp [Insn.uses] at hx
  · simp [Insn.uses] at hx
  · have hv : x = c.ids.uintTypeId := by simpa [Insn.uses] using hx
    exact .inl (hv ▸ hc.uint_supplied)
  · have hv : x = c.ids.voidId := by simpa [Insn.uses] using hx
    exact .inl (hv ▸ hc.void_supplied)
  · obtain ⟨hp1, hp2⟩ := List.of_mem_zip hp
    cases uses_interfaceVar hi hx with
    | inl h => exact .inl (h ▸ supplied_fresh (hc.outs_fresh hp1).1)
    | inr h => exact .inr (.inl (h ▸ hp2))
  · obtain ⟨hp1, hp2⟩ := List.of_mem_zip hp
    cases uses_interfaceVar hi hx with
    | inl h => exact .inl (h ▸ supplied_fresh (hc.ins_fresh hp1).1)
    | inr h => exact .inr (.inr (h ▸ hp2))

theorem uses_loads {i : Insn} (hi : i ∈ c.loads) {x : Nat} (hx : x ∈ i.uses g) :
    x ∈ c.inVars ∨ x ∈ c.scan.paramTypes := by
  simp only [EmitCtx.loads, List.mem_map] at hi
  obtain ⟨⟨⟨p, t⟩, v⟩, hp, rfl⟩ := hi
  obtain ⟨hp', hv⟩ := List.of_mem_zip hp
  obtain ⟨-, ht⟩ := List.of_mem_zip hp'
  have hx' : x = t ∨ x = v := by simpa [Insn.uses] using hx
  cases hx' with
  | inl h => exact .inr (h ▸ ht)
  | inr h => exact .inl (h ▸ hv)

/-- Stores of a return use its value, the member types, the outputs and the extracts. -/
theorem uses_returnStores (hc : c.For g m f) {n v : Nat} {i : Insn}
    (hi : i ∈ c.returnStores n v ++ [⟨.ret, []⟩]) {x : Nat} (hx : x ∈ i.uses g) :
    (x = v ∧ c.scan.retMemberTypes ≠ []) ∨ x ∈ c.scan.retMemberTypes ∨ x ∈ c.outVars ∨
      x ∈ c.extractIds n := by
  have hlen := hc.outVars_length
  rw [List.mem_append, List.mem_singleton] at hi
  obtain hi | rfl := hi
  · simp only [EmitCtx.returnStores] at hi
    split at hi
    · rename_i hstruct
      obtain ⟨⟨⟨o, t⟩, k⟩, hp, hi⟩ := List.mem_flatMap.mp hi
      have hz := List.of_mem_zip (List.fst_mem_of_mem_zipIdx hp)
      have hk : k < c.scan.retMemberTypes.length := by
        have := List.snd_lt_of_mem_zipIdx hp
        simp only [List.length_zip, hlen, Nat.min_self] at this
        omega
      simp only [List.mem_cons, List.not_mem_nil, or_false] at hi
      obtain rfl | rfl := hi
      · have hx' : x = t ∨ x = v := by simpa [Insn.uses] using hx
        cases hx' with
        | inl h => exact .inr (.inl (h ▸ hz.2))
        | inr h => exact .inl ⟨h, List.ne_nil_of_mem hz.2⟩
      · have hx' : x = o ∨ x = n+k := by simpa [Insn.uses] using hx
        cases hx' with
        | inl h => exact .inr (.inr (.inl (h ▸ hz.1)))
        | inr h =>
          refine .inr (.inr (.inr ?_))
          rw [EmitCtx.extractIds, if_pos hstruct, List.mem_range'_1]
          omega
    · rename_i hstruct
      have hone : c.scan.retMemberTypes = [f.retType] := by
        cases hc.scan.members with
        | inl h => exact absurd h.1 hstruct
        | inr h => exact h.2.1
      rw [List.mem_singleton] at hi
      subst hi
      have hx' : x = c.outVars.getD 0 0 ∨ x = v := by simpa [Insn.uses] using hx
      cases hx' with
      | inl h =>
        refine .inr (.inr (.inl ?_))
        rw [hone] at hlen
        obtain ⟨o, ho⟩ := List.length_eq_one_iff.mp hlen
        simp [h, ho]
      | inr h => exact .inl ⟨h, by simp [hone]⟩
  · simp [Insn.uses] at hx

/-- A return with a member uses its value. -/
theorem value_used (hc : c.For g m f) (hne : c.scan.retMemberTypes ≠ []) (n v : Nat) :
    ∃ i ∈ c.returnStores n v, v ∈ i.uses g := by
  have hlen := hc.outVars_length
  simp only [EmitCtx.returnStores]
  split
  · obtain ⟨t, ts, hts⟩ := List.exists_cons_of_ne_nil hne
    rw [hts] at hlen ⊢
    obtain ⟨o, os, hos⟩ := List.exists_cons_of_length_eq_add_one hlen
    exact ⟨⟨.compositeExtract, [t, n+0, v, 0]⟩, by simp [hos, List.zipIdx_cons], by simp [Insn.uses]⟩
  · exact ⟨_, List.mem_singleton.mpr rfl, by simp [Insn.uses]⟩

theorem mem_emitAll_globals {is : List Insn} (hg : ∀ i ∈ is, i.op.inGlobals = true) (z t : Bool)
    (n : Nat) {i' : Insn} (h : i' ∈ (emitAll c ⟨z, t, false, false, false, n⟩ is).2) :
    i' ∈ c.decorations ∨ i' ∈ c.zoneA ∨ ∃ i ∈ is, i' ∈ c.rewriteInsn i := by
  induction is generalizing z t with
  | nil => simp [emitAll] at h
  | cons i is ih =>
    simp only [emitAll, emitInsn_global (hg i List.mem_cons_self), List.mem_append] at h
    obtain ((h | h) | h) | h := h
    · split at h
      · exact .inl h
      · simp at h
    · exact .inr (.inr ⟨i, List.mem_cons_self, h⟩)
    · split at h
      · exact .inr (.inl h)
      · simp at h
    · obtain h | h | ⟨j, hj, h⟩ := ih (fun j hj => hg j (List.mem_cons_of_mem i hj)) _ _ h
      · exact .inl h
      · exact .inr (.inl h)
      · exact .inr (.inr ⟨j, List.mem_cons_of_mem i hj, h⟩)

/-- The declarations' own rewriting is part of what is emitted for them. -/
theorem rewriteInsn_mem_globals {is : List Insn} (hg : ∀ i ∈ is, i.op.inGlobals = true)
    (z t : Bool) (n : Nat) {i i' : Insn} (hi : i ∈ is) (h : i' ∈ c.rewriteInsn i) :
    i' ∈ (emitAll c ⟨z, t, false, false, false, n⟩ is).2 := by
  induction is generalizing z t with
  | nil => exact absurd hi (by simp)
  | cons j is ih =>
    simp only [emitAll, emitInsn_global (hg j List.mem_cons_self), List.mem_append]
    cases List.mem_cons.mp hi with
    | inl he =>
      subst he
      exact .inl (.inl (.inr h))
    | inr hi => exact .inr (ih (fun k hk => hg k (List.mem_cons_of_mem j hk)) _ _ hi)

/-- An instruction of a rewritten block comes from one of the block, rewritten with a
fresh id of the block's range. -/
theorem mem_rewriteBlocks {bs : List Block} {n : Nat} {b' : Block}
    (hb : b' ∈ c.rewriteBlocks n bs) : ∃ b ∈ bs, ∃ n', n ≤ n' ∧
      c.nextAfter n' b ≤ c.nextAfterAll n bs ∧ b' = c.rewriteBlock n' b := by
  induction bs generalizing n with
  | nil => simp [EmitCtx.rewriteBlocks] at hb
  | cons b bs ih =>
    have hn : n ≤ c.nextAfter n b := by
      have := c.nextAfter_eq n b
      omega
    simp only [EmitCtx.rewriteBlocks, List.mem_cons] at hb
    cases hb with
    | inl h => exact ⟨b, List.mem_cons_self, n, le_rfl, c.le_nextAfterAll bs _, h⟩
    | inr h =>
      obtain ⟨b₁, hb₁, n', hn', hle, h⟩ := ih h
      exact ⟨b₁, List.mem_cons_of_mem b hb₁, n', by omega, hle, h⟩

theorem mem_rewriteBody {bs : List Block} {n : Nat} {loads : List Insn} {b' : Block} {i' : Insn}
    (hb : b' ∈ c.rewriteBody n loads bs) (hi : i' ∈ b'.insns) :
    i' ∈ loads ∨ ∃ b ∈ bs, ∃ i ∈ b.insns, ∃ n', n ≤ n' ∧
      c.nextAfter n' b ≤ c.nextAfterAll n bs ∧ i' ∈ c.rewriteAt n' i := by
  cases bs with
  | nil => simp [EmitCtx.rewriteBody] at hb
  | cons b bs =>
    simp only [EmitCtx.rewriteBody, List.mem_cons] at hb
    cases hb with
    | inl h =>
      subst h
      simp only [EmitCtx.rewriteFirst, List.mem_append, List.mem_flatMap] at hi
      obtain ⟨i, hi, h⟩ | h | ⟨i, hi, h⟩ := hi
      · exact .inr ⟨b, List.mem_cons_self, i, List.takeWhile_sublist _ |>.subset hi, n, le_rfl,
          c.le_nextAfterAll bs _, h⟩
      · exact .inl h
      · exact .inr ⟨b, List.mem_cons_self, i, List.dropWhile_sublist _ |>.subset hi, n, le_rfl,
          c.le_nextAfterAll bs _, h⟩
    | inr h =>
      have hn : n ≤ c.nextAfter n b := by
        have := c.nextAfter_eq n b
        omega
      obtain ⟨b₁, hb₁, n', hn', hle, rfl⟩ := mem_rewriteBlocks h
      obtain ⟨i, hi, h⟩ := List.mem_flatMap.mp hi
      exact .inr ⟨b₁, List.mem_cons_of_mem b hb₁, i, hi, n', by omega, hle, h⟩

/-- What is rewritten stands in the rewritten body. -/
theorem rewriteAt_mem_blocks {bs : List Block} {b : Block} {i : Insn} (hb : b ∈ bs)
    (hi : i ∈ b.insns) (n : Nat) : ∃ n', ∀ i' ∈ c.rewriteAt n' i,
      i' ∈ (c.rewriteBlocks n bs).flatMap Block.insns := by
  induction bs generalizing n with
  | nil => exact absurd hb (by simp)
  | cons b₁ bs ih =>
    simp only [EmitCtx.rewriteBlocks, List.flatMap_cons, List.mem_append]
    cases List.mem_cons.mp hb with
    | inl he =>
      subst he
      exact ⟨n, fun i' h => .inl (List.mem_flatMap.mpr ⟨i, hi, h⟩)⟩
    | inr hb =>
      obtain ⟨n', h⟩ := ih hb (c.nextAfter n b₁)
      exact ⟨n', fun i' hi' => .inr (h i' hi')⟩

theorem rewriteAt_mem_body (loads : List Insn) {bs : List Block} {b : Block} {i : Insn}
    (hb : b ∈ bs) (hi : i ∈ b.insns) (n : Nat) : ∃ n', ∀ i' ∈ c.rewriteAt n' i,
      i' ∈ (c.rewriteBody n loads bs).flatMap Block.insns := by
  cases bs with
  | nil => exact absurd hb (by simp)
  | cons b₀ bs =>
    simp only [EmitCtx.rewriteBody, List.flatMap_cons, List.mem_append]
    cases List.mem_cons.mp hb with
    | inl he =>
      subst he
      refine ⟨n, fun i' h => .inl ?_⟩
      rw [← List.takeWhile_append_dropWhile (p := c.isEarly) (l := b.insns)] at hi
      simp only [EmitCtx.rewriteFirst, List.mem_append, List.mem_flatMap]
      cases List.mem_append.mp hi with
      | inl hi => exact .inl ⟨i, hi, h⟩
      | inr hi => exact .inr (.inr ⟨i, hi, h⟩)
    | inr hb =>
      obtain ⟨n', h⟩ := rewriteAt_mem_blocks (c := c) hb hi (c.nextAfter n b₀)
      exact ⟨n', fun i' hi' => .inr (h i' hi')⟩

end Uses

theorem keptUses_returnValue {i : Insn} (hop : i.op = .returnValue) :
    m.keptUses g i = i.args.take 1 := by
  have hd : m.dropsCast i = false := dropsCast_of_ne (by simp [hop])
  simp [Module.keptUses, drops, hop, hd, isSpecBitcast, Insn.uses]

/-- No members exactly when the entry returns an empty struct. -/
theorem returnsNothing_iff (hm : m.Kernel g) (hc : c.For g m f) :
    m.returnsNothing f = true ↔ c.scan.retMemberTypes = [] := by
  simp only [Module.returnsNothing, List.contains_iff_mem]
  cases hc.scan.members with
  | inl h =>
    constructor
    · intro hs
      have heq := hm.ids.result_inj hs h.2 rfl rfl
      simpa using heq
    · intro hnil
      simpa [hnil] using h.2
  | inr h => simp [h.2.1, h.2.2]

theorem usesAfter_entry (hf : f ∈ m.fns) {x : Nat}
    (hx : x ∈ (f.headerLines ++ f.trail).flatMap (·.uses g) ++ f.insns.flatMap (m.entryUses g f)) :
    x ∈ m.usesAfter g f :=
  List.mem_append_right _ (List.mem_flatMap.mpr ⟨f, hf, by rw [if_pos rfl]; exact hx⟩)

section Closed
variable (hm : m.Kernel g) (hc : c.For g m f) (hf : f ∈ m.fns)
include hm hc hf

theorem members_backed {t : Nat} (ht : t ∈ c.scan.retMemberTypes) :
    t ∈ m.usesAfter g f ∨ c.Supplied g m f t := by
  cases hc.scan.members with
  | inl h =>
    refine .inl (List.mem_append_left _ (List.mem_flatMap.mpr ⟨_, h.2, ?_⟩))
    simpa [Module.keptUses, drops, dropsCast_of_ne, isSpecBitcast, Insn.uses] using ht
  | inr h =>
    rw [h.2.1, List.mem_singleton] at ht
    exact .inr (supplied_global ((hm.fns f hf).types t (by simp [ht])))

theorem paramTypes_supplied {t : Nat} (ht : t ∈ c.scan.paramTypes) : c.Supplied g m f t := by
  rw [hc.scan.params] at ht
  exact supplied_global ((hm.fns f hf).types t (List.mem_cons_of_mem _ ht))

/-- Declarations' uses. -/
theorem globals_backed (hs : ∀ b ∈ c.entry, 0 < b ∧ b < 256) {i' : Insn}
    (hi : i' ∈ (c.rewriteModule c.planned m f).globals) {x : Nat} (hx : x ∈ i'.uses g) :
    x ∈ m.usesAfter g f ∨ c.Supplied g m f x := by
  have hvars : x ∈ c.outVars ∨ x ∈ c.inVars → c.Supplied g m f x := by
    intro h
    cases h with
    | inl h => exact supplied_fresh (hc.outVar_fresh h)
    | inr h => exact supplied_fresh (hc.inVar_fresh h)
  simp only [EmitCtx.rewriteModule, List.mem_append] at hi
  cases hi with
  | inl hi =>
    obtain h | h | ⟨i, hi, h⟩ := mem_emitAll_globals hm.globals false false _ hi
    · exact .inr (hvars (uses_decorations h hx))
    · cases uses_zoneA hs h hx with
      | inl hid =>
        refine .inr (.inl (List.mem_append_right _ ?_))
        rw [hid, hc.fnId]
        exact List.mem_flatMap.mpr ⟨f, hf, by simp⟩
      | inr h => exact .inr (hvars h)
    · cases uses_rewriteInsn hc (hm.arity i (globals_sub_code hi)) h hx with
      | inl h => exact .inl (List.mem_append_left _ (List.mem_flatMap.mpr ⟨i, hi, h⟩))
      | inr h => exact .inr (h ▸ hc.zero_supplied)
  | inr hi =>
    obtain h | h | h := uses_declarations hc hi hx
    · exact .inr h
    · exact members_backed hm hc hf h
    · exact .inr (paramTypes_supplied hm hc hf h)

/-- Uses of an instruction of the entry's blocks. -/
theorem rewriteAt_backed {b : Block} (hb : b ∈ f.blocks) {i : Insn} (hi : i ∈ b.insns) {n : Nat}
    (hn : c.planned ≤ n) (hle : c.nextAfter n b ≤ c.nextAfterAll c.planned f.blocks) {i' : Insn}
    (h : i' ∈ c.rewriteAt n i) {x : Nat} (hx : x ∈ i'.uses g) :
    x ∈ m.usesAfter g f ∨ c.Supplied g m f x := by
  have ha := hm.arity_insns hf i (mem_insns hb hi)
  have hbody : ∀ y ∈ m.entryUses g f i, y ∈ m.usesAfter g f := fun y hy =>
    usesAfter_entry hf (List.mem_append_right _
      (List.mem_flatMap.mpr ⟨i, mem_insns hb hi, hy⟩))
  simp only [EmitCtx.rewriteAt] at h
  split at h
  · rename_i hop
    have h1 : i.args.length = 1 := by simpa [Insn.arity, hop] using ha
    obtain ⟨v, hv⟩ := List.length_eq_one_iff.mp h1
    have harg : i.arg 0 = v := by simp [Insn.arg, hv]
    rw [harg] at h
    obtain ⟨rfl, hne⟩ | h | h | h := uses_returnStores hc h hx
    · refine .inl (hbody x ?_)
      have hsome : m.returnsNothing f = false := by
        rw [← Bool.not_eq_true, returnsNothing_iff hm hc]
        exact hne
      simp [Module.entryUses, hsome, keptUses_returnValue hop, hv]
    · exact members_backed hm hc hf h
    · exact .inr (supplied_fresh (hc.outVar_fresh h))
    · refine .inr (.inr (List.mem_append_right _ ?_))
      have hany : b.insns.any (·.op == .returnValue) = true :=
        List.any_eq_true.mpr ⟨i, hi, by simp [hop]⟩
      have hnext := c.nextAfter_eq n b
      rw [if_pos hany] at hnext
      simp only [EmitCtx.extractIds] at h hnext
      split at h
      · rename_i hst
        rw [if_pos hst, List.length_range'] at hnext
        rw [List.mem_range'_1] at h ⊢
        omega
      · simp at h
  · rename_i hop
    cases uses_rewriteInsn hc ha h hx with
    | inl h =>
      refine .inl (hbody x ?_)
      rw [Module.entryUses, if_neg (fun he => hop he.1)]
      exact h
    | inr h => exact .inr (h ▸ hc.zero_supplied)

theorem entry_backed {i' : Insn} (hi : i' ∈ (c.rewriteEntry c.planned f).code) {x : Nat}
    (hx : x ∈ i'.uses g) : x ∈ m.usesAfter g f ∨ c.Supplied g m f x := by
  have hloads : i' ∈ c.loads → c.Supplied g m f x := by
    intro h
    cases uses_loads h hx with
    | inl h => exact supplied_fresh (hc.inVar_fresh h)
    | inr h => exact paramTypes_supplied hm hc hf h
  have hlines : i' ∈ f.headerLines ++ f.trail → x ∈ m.usesAfter g f := fun h =>
    usesAfter_entry hf (List.mem_append_left _ (List.mem_flatMap.mpr ⟨i', h, hx⟩))
  simp only [Fn.code, Block.code, List.mem_append, List.mem_cons, List.mem_flatMap] at hi
  obtain ((rfl | hi) | ⟨b, hb, rfl | hi⟩) | rfl | hi := hi
  · have hx' : x = c.ids.voidId ∨ x = c.ids.voidFnTypeId := by
      simpa [Fn.head, EmitCtx.rewriteEntry, Insn.uses] using hx
    cases hx' with
    | inl h => exact .inr (h ▸ hc.void_supplied)
    | inr h => exact .inr (h ▸ supplied_fresh hc.voidFnType_fresh)
  · simp only [EmitCtx.rewriteEntry] at hi
    split at hi
    · simp at hi
    · cases List.mem_append.mp hi with
      | inl h => exact .inr (hloads h)
      | inr h => exact .inl (hlines (List.mem_append_left _ h))
  · simp [Insn.uses] at hx
  · obtain h | ⟨b₁, hb₁, i, hi₁, n, hn, hle, h⟩ := mem_rewriteBody hb hi
    · split at h
      · exact .inr (hloads h)
      · simp at h
    · exact rewriteAt_backed hm hc hf hb₁ hi₁ hn hle h hx
  · simp [Insn.uses] at hx
  · exact .inl (hlines (List.mem_append_right _ hi))

/-- Every use in the rewritten module is an old use that stays or is supplied. -/
theorem uses_backed (hs : ∀ b ∈ c.entry, 0 < b ∧ b < 256) {i' : Insn}
    (hi : i' ∈ (c.rewriteModule c.planned m f).code) {x : Nat} (hx : x ∈ i'.uses g) :
    x ∈ m.usesAfter g f ∨ c.Supplied g m f x := by
  rw [Module.code, List.mem_append, List.mem_flatMap] at hi
  obtain hi | ⟨h', hh', hi⟩ := hi
  · exact globals_backed hm hc hf hs hi hx
  · simp only [EmitCtx.rewriteModule, EmitCtx.rewriteFns, List.mem_map] at hh'
    obtain ⟨h, hh, rfl⟩ := hh'
    split at hi
    · rename_i hid
      rw [hc.fnId] at hid
      obtain rfl := hm.ids.fn_unique hf hh hid
      exact entry_backed hm hc hf hi hx
    · rename_i hid
      rw [← rewriteFn_code (hm.fns h hh)] at hi
      obtain ⟨i, hi, h'⟩ := List.mem_flatMap.mp hi
      cases uses_rewriteInsn hc (hm.arity i (code_sub hh hi)) h' hx with
      | inl hk =>
        refine .inl (List.mem_append_right _ (List.mem_flatMap.mpr ⟨h, hh, ?_⟩))
        rw [if_neg (by rwa [hc.fnId] at hid)]
        exact List.mem_flatMap.mpr ⟨i, hi, hk⟩
      | inr hk => exact .inr (hk ▸ hc.zero_supplied)

/-- Old uses that stay are uses in the rewritten module. -/
theorem usesAfter_used {x : Nat} (hx : x ∈ m.usesAfter g f) :
    ∃ i' ∈ (c.rewriteModule c.planned m f).code, x ∈ i'.uses g := by
  simp only [Module.usesAfter, List.mem_append, List.mem_flatMap] at hx
  obtain ⟨i, hi, hx⟩ | ⟨h, hh, hx⟩ := hx
  · obtain ⟨i', hi', hx'⟩ := keptUses_rewriteInsn hc (hm.arity i (globals_sub_code hi)) hx
    refine ⟨i', List.mem_append_left _ (List.mem_append_left _ ?_), hx'⟩
    exact rewriteInsn_mem_globals hm.globals false false _ hi hi'
  · split at hx
    · rename_i hid
      have hmem : c.rewriteEntry c.planned f ∈ (c.rewriteModule c.planned m f).fns :=
        List.mem_map.mpr ⟨f, hf, by rw [if_pos hc.fnId.symm]⟩
      have hcode := fun i' h => code_sub (i := i') hmem h
      simp only [List.mem_append, List.mem_flatMap] at hx
      obtain ⟨i, hi | hi, hx⟩ | ⟨i, hi, hx⟩ := hx
      · refine ⟨i, hcode i ?_, hx⟩
        have hne : f.headerLines.isEmpty = false := by
          cases hl : f.headerLines with
          | nil => simp [hl] at hi
          | cons a l => rfl
        simp [Fn.code, EmitCtx.rewriteEntry, hne, hi]
      · exact ⟨i, hcode i (by simp [Fn.code, EmitCtx.rewriteEntry, hi]), hx⟩
      · obtain ⟨b, hb, hib⟩ := List.mem_flatMap.mp hi
        obtain ⟨n, hn⟩ := rewriteAt_mem_body (c := c)
          (if f.headerLines.isEmpty then c.loads else []) hb hib c.planned
        have hin : ∀ i' ∈ c.rewriteAt n i, i' ∈ (c.rewriteModule c.planned m f).code :=
          fun i' h => hcode i' (insns_sub_code (hn i' h))
        simp only [Module.entryUses] at hx
        split_ifs at hx with hr
        · simp at hx
        · by_cases hop : i.op = .returnValue
          · have hne : c.scan.retMemberTypes ≠ [] := by
              rw [Ne, ← returnsNothing_iff hm hc]
              exact fun h => hr ⟨hop, h⟩
            rw [keptUses_returnValue hop] at hx
            have h1 : i.args.length = 1 := by
              simpa [Insn.arity, hop] using hm.arity_insns hf i hi
            obtain ⟨v, hv⟩ := List.length_eq_one_iff.mp h1
            have hxv : x = i.arg 0 := by simpa [hv, Insn.arg] using hx
            obtain ⟨i', hi', hx'⟩ := value_used hc hne n (i.arg 0)
            refine ⟨i', hin i' ?_, hxv ▸ hx'⟩
            rw [EmitCtx.rewriteAt, if_pos hop]
            exact List.mem_append_left _ hi'
          · obtain ⟨i', hi', hx'⟩ := keptUses_rewriteInsn hc (hm.arity_insns hf i hi) hx
            refine ⟨i', hin i' ?_, hx'⟩
            rwa [EmitCtx.rewriteAt, if_neg hop]
    · rename_i hid
      obtain ⟨i, hi, hx⟩ := List.mem_flatMap.mp hx
      obtain ⟨i', hi', hx'⟩ := keptUses_rewriteInsn hc (hm.arity i (code_sub hh hi)) hx
      have hmem : c.rewriteFn h ∈ (c.rewriteModule c.planned m f).fns :=
        List.mem_map.mpr ⟨h, hh, by rw [if_neg (by rwa [hc.fnId])]⟩
      refine ⟨i', code_sub hmem ?_, hx'⟩
      rw [← rewriteFn_code (hm.fns h hh)]
      exact List.mem_flatMap.mpr ⟨i, hi, hi'⟩

omit hc in
theorem usesAfter_defined {x : Nat} (hx : x ∈ m.usesAfter g f) : x ∈ m.defs g := by
  have hkept : ∀ i ∈ m.code, x ∈ m.keptUses g i → x ∈ m.defs g := by
    intro i hi h
    refine hm.ids.closed i hi x ?_
    simp only [Module.keptUses] at h
    split_ifs at h with hd hs
    · simp at h
    · obtain ⟨hop, -, h124⟩ := isSpecBitcast_op hs
      simp [Insn.uses, hop, h124, h]
    · exact h
  simp only [Module.usesAfter, List.mem_append, List.mem_flatMap] at hx
  obtain ⟨i, hi, hx⟩ | ⟨h, hh, hx⟩ := hx
  · exact hkept i (globals_sub_code hi) hx
  · split at hx
    · simp only [List.mem_append, List.mem_flatMap] at hx
      obtain ⟨i, hi | hi, hx⟩ | ⟨i, hi, hx⟩ := hx
      · exact hm.ids.closed i (code_sub hf (by
          simp [Fn.code, (List.mem_filter.mp hi).1])) x hx
      · exact hm.ids.closed i (code_sub hf (by simp [Fn.code, hi])) x hx
      · refine hkept i (code_sub hf (insns_sub_code hi)) ?_
        simp only [Module.entryUses] at hx
        split_ifs at hx
        · simp at hx
        · exact hx
    · obtain ⟨i, hi, hx⟩ := List.mem_flatMap.mp hx
      exact hkept i (code_sub hh hi) hx

/-- Used ids are defined exactly when no use that stays is of a lost id. -/
theorem rewritten_closed_iff (hne : f.blocks ≠ []) (hs : ∀ b ∈ c.entry, 0 < b ∧ b < 256) :
    (∀ i ∈ (c.rewriteModule c.planned m f).code, ∀ x ∈ i.uses g,
      x ∈ (c.rewriteModule c.planned m f).defs g) ↔
      ∀ x ∈ m.usesAfter g f, x ∉ m.lostIds f := by
  constructor
  · intro h x hx hlost
    obtain ⟨i', hi', hx'⟩ := usesAfter_used hm hc hf hx
    cases (mem_rewritten_iff hm hc hf hne).mp (h i' hi' x hx') with
    | inl hl => exact live_not_lost hm hf hl hlost
    | inr hl =>
      have hlt := (hm.ids.below x ((mem_defs_iff hm hf).mpr (.inr hlost))).2
      have hge := (allFresh_bounds hl).1
      rw [hc.scan.bound] at hge
      omega
  · intro h i' hi' x hx
    refine (mem_rewritten_iff hm hc hf hne).mpr ?_
    cases uses_backed hm hc hf hs hi' hx with
    | inl hu =>
      cases (mem_defs_iff hm hf).mp (usesAfter_defined hm hf hu) with
      | inl hl => exact .inl hl
      | inr hl => exact absurd hl (h x hu)
    | inr hsup => exact hsup

end Closed

end Lagfx.Spirv
