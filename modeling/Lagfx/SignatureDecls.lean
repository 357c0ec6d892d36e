import Lagfx.SignatureRuns
import Mathlib.Data.List.Perm.Subperm

/-! Declarations of the rewritten module: what the emit pass knows of the entry, and the
values the declarations give, the same as before but for the ids left apart. -/
namespace Lagfx.Spirv
open Ssa
variable {V Mem : Type} {g : Grammar} {m : Module} {f : Fn} {c : EmitCtx} {I : Interp V Mem}

section Context
variable {s : ScanState} {entry : List Nat} {stage : SpvStage}

theorem find_not_function {is : List Insn} (h : ∀ i ∈ is, isFunctionOf f.id 2 i = false)
    (rest : List Insn) :
    (is ++ f.head :: rest).dropWhile (fun i => !isFunctionOf f.id 2 i) = f.head :: rest := by
  have hhead : isFunctionOf f.id 2 f.head = true := by
    simp [isFunctionOf, Fn.head, Insn.arg]
  rw [List.dropWhile_append_of_pos fun i hi => by simp [h i hi],
    List.dropWhile_cons_of_neg (by simp [hhead])]

/-- The parameter ids the pass reads are the entry's. -/
theorem entryParams_eq (hm : m.Kernel g) (hf : f ∈ m.fns) (hl : f.headerLines.isEmpty = true) :
    entryParams m.code f.id = f.params := by
  obtain ⟨a, b, hab, hother⟩ := hm.ids.split hf
  have hcode : m.code = (m.globals ++ a.flatMap Fn.code) ++ f.head ::
      (f.header ++ (f.blocks.flatMap Block.code ++ ⟨.functionEnd, []⟩ :: f.trail ++
        b.flatMap Fn.code)) := by
    simp [Module.code, hab, Fn.code]
  have hpre : ∀ i ∈ m.globals ++ a.flatMap Fn.code, isFunctionOf f.id 2 i = false := by
    intro i hi
    simp only [List.mem_append, List.mem_flatMap] at hi
    obtain hi | ⟨h, hh, hi⟩ := hi
    · exact isFunctionOf_ne (Op.inGlobals_ne (hm.globals i hi) rfl) _ _
    · have hmem : h ∈ m.fns := by simp [hab, hh]
      by_cases hhead : i = h.head
      · have hne := hother h (List.mem_append_left b hh)
        simp [hhead, isFunctionOf, Fn.head, Insn.arg, hne]
      · exact isFunctionOf_ne ((hm.fns h hmem).op_ne hi hhead) _ _
  have hparams : ∀ i ∈ f.header, isParam i = true := by
    simpa [Fn.headerLines, List.isEmpty_iff] using hl
  have harity : ∀ i ∈ f.header, (i.op == .functionParameter && decide (2 ≤ i.args.length)) = true := by
    intro i hi
    have hop : i.op = .functionParameter := by simpa [isParam] using hparams i hi
    have ha := hm.arity i (code_sub hf (by simp [Fn.code, hi]))
    have h2 : i.args.length = 2 := by simpa [Insn.arity, hop] using ha
    simp [hop, h2]
  rw [entryParams, hcode, find_not_function hpre, List.drop_one, List.tail_cons,
    List.takeWhile_append_of_pos harity, Fn.params, List.filter_eq_self.mpr hparams]
  suffices h : ((f.blocks.flatMap Block.code ++ ⟨.functionEnd, []⟩ :: f.trail ++
      b.flatMap Fn.code).takeWhile fun i =>
        i.op == .functionParameter && decide (2 ≤ i.args.length)) = [] by
    rw [h, List.append_nil]
  cases f.blocks <;> simp [Block.code]

theorem emitCtx_for (hm : m.Kernel g) (hf : f ∈ m.fns)
    (hs : scanModule m.bound m.code entry = .ok s) (hid : f.id = s.fnId) :
    (emitCtx s m.code entry stage).For g m f where
  scan := scanFacts hm hf hs hid
  fnId := hid.symm
  ids := rfl
  params := fun hl => by
    rw [emitCtx, ← hid]
    exact entryParams_eq hm hf hl

/-- Each return takes at most eight ids. -/
theorem nextAfterAll_le (hc : c.For g m f) (bs : List Block) (n : Nat) :
    c.nextAfterAll n bs ≤ n+8*bs.length := by
  induction bs generalizing n with
  | nil => exact le_rfl
  | cons b bs ih =>
    have hle := ih (c.nextAfter n b)
    have hstep : c.nextAfter n b ≤ n+8 := by
      have := hc.scan.membersLe
      simp only [EmitCtx.nextAfter, EmitCtx.afterReturn]
      split_ifs <;> omega
    simp only [EmitCtx.nextAfterAll, List.length_cons]
    omega

theorem planned_le (hc : c.For g m f) : c.planned ≤ m.bound+36 := by
  have h₁ := afterReuse_eq c.scan.voidId c.scan.bound
  have h₂ := afterReuse_eq c.scan.uintTypeId
    (afterReuse c.scan.voidId c.scan.bound+1+2*c.scan.retMemberTypes.length +
      2*c.scan.paramTypes.length)
  have h₃ := afterReuse_eq c.scan.uintZeroId (afterReuse c.scan.uintTypeId
    (afterReuse c.scan.voidId c.scan.bound+1+2*c.scan.retMemberTypes.length +
      2*c.scan.paramTypes.length))
  have hb := hc.scan.bound
  have hp := hc.scan.paramsLe
  have ht := hc.scan.membersLe
  simp only [EmitCtx.planned, planSynthIds]
  split_ifs at h₁ h₂ h₃ <;> omega

/-- A function has fewer blocks than the module has ids. -/
theorem blocks_length_le (hm : m.Kernel g) (hf : f ∈ m.fns) : f.blocks.length ≤ m.bound := by
  have hsub : (f.blocks.map Block.label).Sublist (f.blocks.flatMap (Block.defs g)) := by
    rw [← List.flatMap_singleton' (f.blocks.map Block.label), List.flatMap_map]
    exact List.Sublist.flatMap_right _ fun b _ => by simp [Block.defs]
  have hdefs : (f.blocks.flatMap (Block.defs g)).Sublist (f.defs g) :=
    List.sublist_append_right _ _
  have hnd : (f.blocks.map Block.label).Nodup := by
    have hfns := (List.nodup_append.mp hm.ids.nodup).2.1
    exact (hsub.trans hdefs).nodup ((List.nodup_flatMap.mp hfns).1 f hf)
  have hlt : ∀ l ∈ f.blocks.map Block.label, l ∈ List.range m.bound := by
    intro l hl
    refine List.mem_range.mpr (hm.ids.below l ?_).2
    exact List.mem_append_right _ (List.mem_flatMap.mpr ⟨f, hf, (hsub.trans hdefs).subset hl⟩)
  simpa using (List.subperm_of_subset hnd hlt).length_le

/-- The bound of the output fits its word. -/
theorem rewritten_bound_lt (hm : m.Kernel g) (hc : c.For g m f) (hf : f ∈ m.fns) :
    (c.rewriteModule c.planned m f).bound < 2^32 := by
  have hle := nextAfterAll_le hc f.blocks c.planned
  have hp := planned_le hc
  have hb := blocks_length_le hm hf
  have hlim := hm.limit
  simp only [EmitCtx.rewriteModule]
  omega

end Context

section Declare
variable {D : Nat → Prop} {iface : List Nat} {s s' : (Nat → V) × Mem} {i : Insn}

theorem bindGlobal_none (h : i.result g = none) : bindGlobal g I iface s i = s := by
  simp [bindGlobal, h]

theorem bindGlobal_ne {x : Nat} (h : i.result g ≠ some x) :
    (bindGlobal g I iface s i).1 x = s.1 x := by
  rw [bindGlobal]
  cases hr : i.result g with
  | none => rfl
  | some r =>
    have hne : x ≠ r := by
      rintro rfl
      exact h hr
    simp only
    split <;> exact Function.update_of_ne hne _ _

/-- A type or a constant gets its value from the ids it uses. -/
theorem bindGlobal_const {x : Nat} (hr : i.result g = some x) (hop : i.op ≠ .var) :
    (bindGlobal g I iface s i).1 x = I.const i ((i.uses g).map s.1) := by
  simp [bindGlobal, hr, hop]

theorem foldl_silent {is : List Insn} (h : results g is = []) :
    is.foldl (bindGlobal g I iface) s = s := by
  induction is with
  | nil => rfl
  | cons i is ih =>
    rw [← List.singleton_append, results_append, List.append_eq_nil_iff] at h
    have hi : i.result g = none := by simpa [results] using h.1
    rw [List.foldl_cons, bindGlobal_none hi]
    exact ih h.2

theorem foldl_frame {is : List Insn} {x : Nat} (h : x ∉ results g is) :
    (is.foldl (bindGlobal g I iface) s).1 x = s.1 x := by
  induction is generalizing s with
  | nil => rfl
  | cons i is ih =>
    rw [← List.singleton_append, results_append, List.mem_append, not_or] at h
    have hi : i.result g ≠ some x := by
      intro hr
      exact h.1 (mem_results (by simp) hr)
    rw [List.foldl_cons, ih h.2, bindGlobal_ne hi]

/-- What an integer type gets stays until the end. -/
theorem foldl_typeInt {a b : List Insn} {t : Nat} (h : t ∉ results g b) :
    ((a ++ ⟨.typeInt, [t, 32, 0]⟩ :: b).foldl (bindGlobal g I iface) s).1 t =
      I.const ⟨.typeInt, [t, 32, 0]⟩ [] := by
  rw [List.foldl_append, List.foldl_cons, foldl_frame h]
  exact bindGlobal_const rfl (by simp)

theorem foldl_constant {a b : List Insn} {t z : Nat} (h : z ∉ results g b) :
    ((a ++ ⟨.constant, [t, z, 0]⟩ :: b).foldl (bindGlobal g I iface) s).1 z =
      I.const ⟨.constant, [t, z, 0]⟩ [(a.foldl (bindGlobal g I iface) s).1 t] := by
  rw [List.foldl_append, List.foldl_cons, foldl_frame h]
  exact bindGlobal_const rfl (by simp)

/-- Declarations so far that match: `D` the ids left apart. -/
structure DeclRel (D : Nat → Prop) (s s' : (Nat → V) × Mem) : Prop where
  env : AgreeOff D s.1 s'.1
  mem : s.2 = s'.2

/-- Declarations only the rewritten module has. -/
theorem DeclRel.extend {is : List Insn} (h : DeclRel D s s')
    (hd : ∀ i ∈ is, ∀ r, i.result g = some r → D r ∧ (i.op = .var → r ∈ iface)) :
    DeclRel D s (is.foldl (bindGlobal g I iface) s') := by
  induction is generalizing s' with
  | nil => exact h
  | cons i is ih =>
    refine ih ?_ fun j hj => hd j (List.mem_cons_of_mem i hj)
    rw [bindGlobal]
    cases hr : i.result g with
    | none => exact h
    | some r =>
      obtain ⟨hD, hvar⟩ := hd i List.mem_cons_self r hr
      have hcond : ¬ (i.op = .var ∧ (!iface.contains r) = true) := by
        rintro ⟨hop, hc⟩
        simp [hvar hop] at hc
      simp only [if_neg hcond]
      exact ⟨h.env.updateRight hD _, h.mem⟩

/-- A declaration that reads the same values gives the same. -/
theorem DeclRel.kept (h : DeclRel D s s') (hu : ∀ x ∈ i.uses g, ¬ D x)
    (hif : ∀ r, i.result g = some r → r ∉ iface) :
    DeclRel D (bindGlobal g I [] s i) (bindGlobal g I iface s' i) := by
  have hvals := h.env.map hu
  simp only [bindGlobal]
  cases hr : i.result g with
  | none => exact h
  | some r =>
    have hc : iface.contains r = false := by simpa using hif r hr
    simp only [List.contains_nil, hc, ← hvals, ← h.mem]
    by_cases hop : i.op = .var
    · simp only [hop, Bool.not_false, and_self, if_true]
      exact ⟨h.env.update r _, rfl⟩
    · simp only [hop, false_and, if_false]
      exact ⟨h.env.update r _, rfl⟩

/-- One declaration and what it is rewritten to. -/
theorem bindGlobal_rewriteInsn (hm : m.Kernel g) (hc : c.For g m f) (hlaw : I.Lawful g m)
    (hi : i ∈ m.globals) (hu : ∀ x ∈ m.keptUses g i, ¬ D x)
    (hspec : isSpecBitcast i = true → m.castsUndef i = false → D (i.arg 1))
    (hif : ∀ r, i.result g = some r → r ∉ iface) (h : DeclRel D s s') :
    DeclRel D (bindGlobal g I [] s i) ((c.rewriteInsn i).foldl (bindGlobal g I iface) s') := by
  have ha := hm.arity i (globals_sub_code hi)
  generalize hl : c.rewriteInsn i = l
  have hr := rewritten hc ha
  rw [hl] at hr
  cases hr with
  | undef hs =>
    obtain ⟨hop, h3, h124⟩ := isSpecBitcast_op hs
    have h4 : i.args.length = 4 := by simpa [Insn.arity, hop, hs] using ha
    have hres : i.result g = some (i.arg 1) := by
      rw [← arg_eq (by omega)]
      simp [Insn.result, hop]
    have hdrop : i.args.drop 3 = [i.arg 3] := by
      rw [List.drop_eq_getElem_cons (by omega), List.drop_eq_nil_of_le (by omega)]
      simp [Insn.arg, h4]
    have huses : i.uses g = [i.arg 0, i.arg 3] := by
      simp [Insn.uses, hop, h124, take_one_args (show 0 < i.args.length by omega), hdrop]
    have htype : s.1 (i.arg 0) = s'.1 (i.arg 0) := by
      refine h.env _ (hu _ ?_)
      simp [Module.keptUses, hs, dropsCast_of_ne, hop, drops,
        take_one_args (show 0 < i.args.length by omega)]
    have hleft : bindGlobal g I [] s i = (Function.update s.1 (i.arg 1)
        (I.const i [s.1 (i.arg 0), s.1 (i.arg 3)]), s.2) := by
      simp [bindGlobal, hres, hop, huses]
    have hright : [(⟨.undef, [i.arg 0, i.arg 1]⟩ : Insn)].foldl (bindGlobal g I iface) s' =
        (Function.update s'.1 (i.arg 1)
          (I.const ⟨.undef, [i.arg 0, i.arg 1]⟩ [s'.1 (i.arg 0)]), s'.2) := by
      simp [bindGlobal, Insn.result, Insn.uses]
    rw [hleft, hright]
    cases hcu : m.castsUndef i with
    | true =>
      rw [hlaw.undef i hi hs hcu, ← htype]
      exact ⟨h.env.update _ _, h.mem⟩
    | false =>
      have hD := hspec hs hcu
      exact ⟨(h.env.updateLeft hD _).updateRight hD _, h.mem⟩
  | dead hd =>
    exact absurd (Module.isRecordedCast_op (Module.dropsCast_recorded hd).1).1
      (Op.inGlobals_ne (hm.globals i hi) rfl)
  | chain hrec hd =>
    exact absurd (Module.isRecordedCast_op hrec).1 (Op.inGlobals_ne (hm.globals i hi) rfl)
  | dropped hd =>
    rw [bindGlobal_none (drops_result hd)]
    exact h
  | kept hs hrc hd =>
    have hku : m.keptUses g i = i.uses g :=
      keptUses_kept hs hd (by simp [Module.dropsCast, hrc])
    exact h.kept (fun x hx => hu x (hku ▸ hx)) hif

/-- The declarations of the module, with the splices among them. -/
theorem declare_globals (hm : m.Kernel g) (hc : c.For g m f) (hlaw : I.Lawful g m)
    {is : List Insn} (his : ∀ i ∈ is, i ∈ m.globals) (hu : ∀ i ∈ is, ∀ x ∈ m.keptUses g i, ¬ D x)
    (hspec : ∀ i ∈ is, isSpecBitcast i = true → m.castsUndef i = false → D (i.arg 1))
    (hif : ∀ i ∈ is, ∀ r, i.result g = some r → r ∉ iface) (z t : Bool) (n : Nat)
    (h : DeclRel D s s') :
    DeclRel D (is.foldl (bindGlobal g I []) s)
      ((emitAll c ⟨z, t, false, false, false, n⟩ is).2.foldl (bindGlobal g I iface) s') := by
  induction is generalizing s s' z t with
  | nil => exact h
  | cons i is ih =>
    have hi : i ∈ m.globals := his i List.mem_cons_self
    have hpre : results g (if !t && i.op.isType then c.decorations else []) = [] := by
      split
      · exact results_decorations
      · rfl
    have hpost : results g (if !z && i.op == .memoryModel then c.zoneA else []) = [] := by
      split
      · exact results_zoneA
      · rfl
    simp only [emitAll, emitInsn_global (hm.globals i hi), List.foldl_append, List.foldl_cons,
      foldl_silent hpre, foldl_silent hpost]
    refine ih (fun j hj => his j (List.mem_cons_of_mem i hj))
      (fun j hj => hu j (List.mem_cons_of_mem i hj))
      (fun j hj => hspec j (List.mem_cons_of_mem i hj))
      (fun j hj => hif j (List.mem_cons_of_mem i hj)) _ _ ?_
    exact bindGlobal_rewriteInsn hm hc hlaw hi (hu i List.mem_cons_self)
      (hspec i List.mem_cons_self) (hif i List.mem_cons_self) h

end Declare

section Whole
variable (hm : m.Kernel g) (hc : c.For g m f) (hf : f ∈ m.fns)

/-- Variables of the entry point. -/
def EmitCtx.iface (c : EmitCtx) : List Nat := c.outVars ++ c.inVars

include hc in
theorem iface_fresh {x : Nat} (hx : x ∈ c.iface) : x ∈ c.freshIds := by
  cases List.mem_append.mp hx with
  | inl h => exact hc.outVar_fresh h
  | inr h => exact hc.inVar_fresh h

include hm hf in
/-- Casts of constants apart, declarations mean the same. -/
theorem global_tight {i : Insn} {x : Nat} (hi : i ∈ m.globals) (hr : i.result g = some x)
    (hs : isSpecBitcast i = false) : ¬ m.Loose f x := by
  have hx : x ∈ results g m.globals := mem_results hi hr
  rintro (h | h | ⟨j, hj, hsj, -, rfl⟩)
  · have := (hm.ids.below x (List.mem_append_left _ hx)).2
    omega
  · exact live_not_lost hm hf (List.mem_append_left _ hx) h
  · obtain ⟨hop, h3, -⟩ := isSpecBitcast_op hsj
    have hrj : j.result g = some (j.arg 1) := by
      rw [← arg_eq (by omega)]
      simp [Insn.result, hop]
    rw [hm.ids.result_inj hi hj hr hrj, hsj] at hs
    cases hs

theorem not_mem_after {a b : List Insn} {i : Insn} {x : Nat} (hr : i.result g = some x)
    (hnd : (results g (a ++ i :: b)).Nodup) : x ∉ results g b := by
  rw [← List.singleton_append, results_append, results_append, results_single, hr] at hnd
  have hnd' := (List.nodup_append.mp hnd).2.1
  exact fun hx => (List.nodup_append.mp hnd').2.2 x (by simp) x hx rfl

theorem declaration_var {i : Insn} (hi : i ∈ c.declarations) (hop : i.op = .var) {r : Nat}
    (hr : i.result g = some r) : r ∈ c.iface := by
  simp only [EmitCtx.declarations, List.mem_append, List.mem_ite_nil_right,
    List.mem_flatMap, interfaceVar, List.mem_cons, List.not_mem_nil, or_false] at hi
  obtain ((((⟨-, rfl⟩ | ⟨-, rfl⟩) | ⟨-, rfl⟩) | rfl) | ⟨p, hp, rfl | rfl⟩) | ⟨p, hp, rfl | rfl⟩ := hi
  · cases hop
  · cases hop
  · cases hop
  · cases hop
  · cases hop
  · cases hr
    exact List.mem_append_left _ (List.mem_map.mpr ⟨p.1, (List.of_mem_zip hp).1, rfl⟩)
  · cases hop
  · cases hr
    exact List.mem_append_right _ (List.mem_map.mpr ⟨p.1, (List.of_mem_zip hp).1, rfl⟩)

variable (hlaw : I.Lawful g m) (hst : m.Steady g f) (mem : Mem)
include hm hc hf hlaw hst

/-- The rewritten declarations, before the pass's own. -/
theorem declare_rewritten :
    DeclRel (m.Loose f) (declare g I [] m.globals mem)
      (declare g I c.iface (emitAll c { next := c.planned } m.globals).2 mem) := by
  refine declare_globals hm hc hlaw (fun i hi => hi) ?_ ?_ ?_ _ _ _ ⟨fun x _ => rfl, rfl⟩
  · intro i hi x hx
    exact usesAfter_tight hm hf hst (List.mem_append_left _ (List.mem_flatMap.mpr ⟨i, hi, hx⟩))
  · exact fun i hi hs hu => .inr (.inr ⟨i, hi, hs, hu, rfl⟩)
  · intro i hi r hr hif
    exact def_not_fresh hm hc (List.mem_append_left _ (mem_results hi hr)) (iface_fresh hc hif)

/-- All declarations. -/
theorem declare_rel :
    DeclRel (m.Loose f) (declare g I [] m.globals mem)
      (declare g I c.iface (c.rewriteModule c.planned m f).globals mem) := by
  have hrel := declare_rewritten hm hc hf hlaw hst mem
  simp only [declare, EmitCtx.rewriteModule, List.foldl_append] at hrel ⊢
  refine hrel.extend fun i hi r hr => ⟨.inl ?_, fun hop => declaration_var hi hop hr⟩
  have hfresh := mem_results hi hr
  rw [results_declarations hc] at hfresh
  rw [← hc.scan.bound]
  exact (freshIds_bounds hfresh).1

/-- A 32-bit integer type of the module. -/
theorem declare_typeInt {t : Nat} (ht : ⟨.typeInt, [t, 32, 0]⟩ ∈ m.globals) :
    (declare g I c.iface (emitAll c { next := c.planned } m.globals).2 mem).1 t =
      I.const ⟨.typeInt, [t, 32, 0]⟩ [] := by
  obtain ⟨a, b, hab⟩ := List.append_of_mem ht
  have hnd : (results g m.globals).Nodup := (List.nodup_append.mp hm.ids.nodup).1
  rw [hab] at hnd
  rw [← (declare_rewritten hm hc hf hlaw hst mem).env t (global_tight hm hf ht rfl rfl)]
  rw [declare, hab]
  exact foldl_typeInt (not_mem_after (i := ⟨.typeInt, [t, 32, 0]⟩) rfl hnd)

/-- The index of the access chains is zero. -/
theorem declare_zero :
    (declare g I c.iface (c.rewriteModule c.planned m f).globals mem).1 c.ids.uintZeroId =
      I.zero := by
  by_cases h0 : c.scan.uintZeroId = 0
  · -- the pass declares the zero itself, and its type when the module has none
    have hnd := freshIds_nodup c
    rw [← results_declarations (g := g) hc] at hnd
    obtain ⟨a, b, hsplit, ha⟩ : ∃ a b, c.declarations =
        a ++ ⟨.constant, [c.ids.uintTypeId, c.ids.uintZeroId, 0]⟩ :: b ∧
        a = (if c.scan.voidId = 0 then [⟨.typeVoid, [c.ids.voidId]⟩] else []) ++
          (if c.scan.uintTypeId = 0 then [⟨.typeInt, [c.ids.uintTypeId, 32, 0]⟩] else []) :=
      ⟨_, _, by simp [EmitCtx.declarations, h0]; rfl, rfl⟩
    rw [hsplit] at hnd
    have hz := not_mem_after (i := ⟨.constant, [c.ids.uintTypeId, c.ids.uintZeroId, 0]⟩) rfl hnd
    simp only [declare, EmitCtx.rewriteModule, List.foldl_append, hsplit]
    rw [← List.foldl_append, foldl_constant hz, ← hlaw.zero c.ids.uintTypeId c.ids.uintZeroId]
    congr 2
    by_cases h1 : c.scan.uintTypeId = 0
    · rw [ha, if_pos h1]
      exact foldl_typeInt (b := []) (by simp [results])
    · have hid : c.ids.uintTypeId = c.scan.uintTypeId := by
        simp [hc.ids, planSynthIds, reuseOr, h1]
      have hint := hc.scan.uint h1
      have hdef := List.mem_append_left (m.fns.flatMap (Fn.defs g))
        (mem_results (g := g) hint rfl)
      rw [hid, foldl_frame]
      · exact declare_typeInt hm hc hf hlaw hst mem hint
      · intro hx
        refine def_not_fresh hm hc hdef ?_
        rw [← results_declarations (g := g) hc, hsplit, results_append]
        exact List.mem_append_left _ hx
  · obtain ⟨t, a, b, hglob, hint⟩ := hc.scan.zero h0
    have hid : c.ids.uintZeroId = c.scan.uintZeroId := by
      simp [hc.ids, planSynthIds, reuseOr, h0]
    have hmem : ⟨.constant, [t, c.scan.uintZeroId, 0]⟩ ∈ m.globals := by simp [hglob]
    have hnd : (results g m.globals).Nodup := (List.nodup_append.mp hm.ids.nodup).1
    rw [hglob] at hnd
    rw [hid, ← (declare_rel hm hc hf hlaw hst mem).env _ (global_tight hm hf hmem rfl rfl)]
    obtain ⟨a₁, a₂, ha⟩ := List.append_of_mem hint
    rw [results_append] at hnd
    have hnda := (List.nodup_append.mp hnd).1
    rw [← results_append] at hnd
    rw [ha] at hnda
    rw [declare, hglob, foldl_constant
      (not_mem_after (i := ⟨.constant, [t, c.scan.uintZeroId, 0]⟩) rfl hnd), ha,
      foldl_typeInt (not_mem_after (i := ⟨.typeInt, [t, 32, 0]⟩) rfl hnda), hlaw.zero]

end Whole

end Lagfx.Spirv
