import Lagfx.SignatureCalls

/-! Runs of the entry: its parameters are loaded from the Input variables, and each return
leaves the members of its value in the Output variables. -/
namespace Lagfx.Spirv
open Ssa
variable {V Mem : Type} {g : Grammar} {m : Module} {f : Fn} {c : EmitCtx} {I : Interp V Mem}
variable {D : Nat → Prop} {s s' : State V Mem} {ρ₀ ρ₀' : Nat → V}
variable {call call' : Nat → List V → Mem → (Nat → V) → Option (Exit V Mem)}

/-- Members of a struct type. -/
def Module.structOf (m : Module) (t : Nat) : Option (List Nat) :=
  (m.globals.find? fun i => i.op == .typeStruct && i.arg 0 == t).map (·.args.drop 1)

/-- Types of what the entry returns: its members, or itself. -/
def Module.memberTypes (m : Module) (f : Fn) : List Nat := (m.structOf f.retType).getD [f.retType]

/-- Member `j` of a value the entry returns. -/
def Module.part (m : Module) (I : Interp V Mem) (f : Fn) (v : V) (j : Nat) : V :=
  if (m.structOf f.retType).isSome then I.member v j else v

/-- How the entry used to leave, and how it leaves now. -/
inductive EntryExit (outs : List Nat) (part : V → Nat → V) : Exit V Mem → Exit V Mem → Prop where
  | returned (v : V) (mem : Mem) (io io' : Nat → V)
      (stored : ∀ j o, outs[j]? = some o → io' o = part v j) (others : ∀ x, x ∉ outs → io' x = io x) :
      EntryExit outs part (.returned (some v) mem io) (.returned none mem io')
  | ended (mem : Mem) (io : Nat → V) : EntryExit outs part (.ended mem io) (.ended mem io)

theorem structOf_eq (hm : m.Kernel g) (hc : c.For g m f) :
    m.structOf f.retType = if c.scan.retIsStruct then some c.scan.retMemberTypes else none := by
  rw [Module.structOf]
  cases hc.scan.members with
  | inl h =>
    rw [if_pos h.1]
    cases hfind : m.globals.find? fun i => i.op == .typeStruct && i.arg 0 == f.retType with
    | none =>
      have hno := List.find?_eq_none.mp hfind _ h.2
      simp [Insn.arg] at hno
    | some i =>
      have hp := List.find?_some hfind
      simp only [Bool.and_eq_true, beq_iff_eq] at hp
      have hmem := List.mem_of_find?_eq_some hfind
      have hlen : 1 ≤ i.args.length := by
        simpa [Insn.arity, hp.1] using hm.arity i (globals_sub_code hmem)
      have hres : i.result g = some f.retType := by
        rw [← hp.2, ← arg_eq (by omega)]
        simp [Insn.result, hp.1]
      rw [hm.ids.result_inj hmem h.2 hres rfl]
      rfl
  | inr h =>
    rw [if_neg (by simp [h.1])]
    cases hfind : m.globals.find? fun i => i.op == .typeStruct && i.arg 0 == f.retType with
    | none => rfl
    | some i =>
      have hp := List.find?_some hfind
      simp only [Bool.and_eq_true, beq_iff_eq] at hp
      have hmem := List.mem_of_find?_eq_some hfind
      obtain ⟨op, args⟩ := i
      cases args with
      | nil =>
        have ha := hm.arity _ (globals_sub_code hmem)
        simp only at hp
        simp [Insn.arity, hp.1] at ha
      | cons a as =>
        have hop : op = .typeStruct := hp.1
        have ha : a = f.retType := hp.2
        subst hop ha
        exact absurd hmem (h.2.2 as)

theorem memberTypes_eq (hm : m.Kernel g) (hc : c.For g m f) :
    m.memberTypes f = c.scan.retMemberTypes := by
  rw [Module.memberTypes, structOf_eq hm hc]
  cases hc.scan.members with
  | inl h => simp [h.1]
  | inr h => simp [h.1, h.2.1]

section Returns
variable {iface : List Nat}

theorem run_load {t p x : Nat} (hx : x ∈ iface) (s : State V Mem) :
    execInsn g I call iface ⟨.load, [t, p, x]⟩ s =
      .next { s with env := Function.update s.env p (s.io x) } := by
  simp [execInsn, Insn.arg, hx, Insn.result, bindResult]

theorem run_store {o v : Nat} (ho : o ∈ iface) (s : State V Mem) :
    execInsn g I call iface ⟨.store, [o, v]⟩ s =
      .next { s with io := Function.update s.io o (s.env v) } := by
  simp [execInsn, Insn.arg, ho]

theorem run_extract (hlaw : I.Lawful g m) (t r v k : Nat) (s : State V Mem) :
    execInsn g I call iface ⟨.compositeExtract, [t, r, v, k]⟩ s =
      .next { s with env := Function.update s.env r (I.member (s.env v) k) } := by
  simp [execInsn, execOrdinary, Op.isTerminator, Op.code, Insn.uses, Insn.result, bindResult,
    hlaw.extract]

/-- What a state keeps, and the cells that hold the members of `v`. -/
structure Stored (I : Interp V Mem) (ps : List (Nat × Nat)) (v : V) (k : Nat) (s t : State V Mem) :
    Prop where
  mem : t.mem = s.mem
  cells : ∀ j p, ps[j]? = some p → t.io p.1 = I.member v (k+j)
  others : ∀ x, x ∉ ps.map (·.1) → t.io x = s.io x

variable (call) in
/-- Extracts and stores of the members from `k` on. -/
theorem run_members (hlaw : I.Lawful g m) {ps : List (Nat × Nat)} (hnd : (ps.map (·.1)).Nodup)
    (hif : ∀ p ∈ ps, p.1 ∈ iface) {n v : Nat} (hv : v < n) (k : Nat) (s : State V Mem) :
    ∃ t, runInsns (execInsn g I call iface) ((ps.zipIdx k).flatMap fun p =>
        [⟨.compositeExtract, [p.1.2, n+p.2, v, p.2]⟩, ⟨.store, [p.1.1, n+p.2]⟩]) s = .next t ∧
      Stored I ps (s.env v) k s t := by
  induction ps generalizing k s with
  | nil => exact ⟨s, rfl, rfl, by simp, fun _ _ => rfl⟩
  | cons p ps ih =>
    rw [List.map_cons, List.nodup_cons] at hnd
    have hne : v ≠ n+k := by omega
    let e := Function.update s.env (n+k) (I.member (s.env v) k)
    let s₂ : State V Mem :=
      { s with env := e, io := Function.update s.io p.1 (e (n+k)) }
    have hev : s₂.env v = s.env v := Function.update_of_ne hne _ _
    have hio : s₂.io p.1 = I.member (s.env v) k := by
      simp only [s₂, e, Function.update_self]
    obtain ⟨t, hrun, ht⟩ := ih hnd.2 (fun q hq => hif q (List.mem_cons_of_mem p hq)) (k+1) s₂
    rw [hev] at ht
    refine ⟨t, ?_, ht.mem, ?_, ?_⟩
    · rw [List.zipIdx_cons, List.flatMap_cons, List.cons_append, List.cons_append,
        List.nil_append, runInsns, run_extract hlaw, Step.andThen, runInsns,
        run_store (hif p List.mem_cons_self), Step.andThen]
      exact hrun
    · intro j q hq
      cases j with
      | zero =>
        obtain rfl : p = q := by simpa using hq
        rw [ht.others _ hnd.1, hio, Nat.add_zero]
      | succ j =>
        rw [ht.cells j q (by simpa using hq)]
        congr 1
        omega
    · intro x hx
      rw [List.map_cons, List.mem_cons, not_or] at hx
      rw [ht.others x hx.2]
      exact Function.update_of_ne hx.1 _ _

theorem outVars_nodup (hc : c.For g m f) : c.outVars.Nodup := by
  have hinj : Function.Injective fun k => afterReuse c.scan.voidId c.scan.bound+1+2*k+1 :=
    fun a b h => by simpa using h
  have hmap : c.outVars = (List.range c.scan.retMemberTypes.length).map
      fun k => afterReuse c.scan.voidId c.scan.bound+1+2*k+1 := by
    simp [EmitCtx.outVars, hc.ids, planSynthIds, freshPairs]
  rw [hmap]
  exact List.nodup_range.map hinj

variable (call) in
/-- What stands for a return leaves the members of the value in the Output variables. -/
theorem run_returnStores (hm : m.Kernel g) (hc : c.For g m f) (hlaw : I.Lawful g m) {n v : Nat}
    (hv : v < n) (s : State V Mem) :
    ∃ t, runInsns (execInsn g I call c.iface) (c.returnStores n v) s = .next t ∧
      t.mem = s.mem ∧ (∀ j o, c.outVars[j]? = some o → t.io o = m.part I f (s.env v) j) ∧
      ∀ x, x ∉ c.outVars → t.io x = s.io x := by
  have hlen := hc.outVars_length
  have hnd := outVars_nodup hc
  have hpart : ∀ j, m.part I f (s.env v) j =
      if c.scan.retIsStruct then I.member (s.env v) j else s.env v := by
    intro j
    rw [Module.part, structOf_eq hm hc]
    split_ifs <;> simp_all
  cases hs : c.scan.retIsStruct with
  | true =>
    have hfst : (c.outVars.zip c.scan.retMemberTypes).map (·.1) = c.outVars :=
      List.map_fst_zip (by omega)
    obtain ⟨t, hrun, ht⟩ := run_members call hlaw (hfst.symm ▸ hnd)
      (fun p hp => List.mem_append_left c.inVars (List.of_mem_zip hp).1) hv 0 s
    refine ⟨t, by rw [EmitCtx.returnStores, if_pos hs]; exact hrun, ht.mem, ?_, ?_⟩
    · intro j o ho
      have hj : j < c.scan.retMemberTypes.length := by
        have := (List.getElem?_eq_some_iff.mp ho).1
        omega
      have hz : (c.outVars.zip c.scan.retMemberTypes)[j]? = some (o, c.scan.retMemberTypes[j]) := by
        rw [List.getElem?_zip_eq_some]
        exact ⟨ho, List.getElem?_eq_getElem hj⟩
      rw [ht.cells j _ hz, hpart, hs, Nat.zero_add]
      rfl
    · intro x hx
      exact ht.others x (by rwa [hfst])
  | false =>
    have hone : c.scan.retMemberTypes.length = 1 := by
      cases hc.scan.members with
      | inl h => rw [hs] at h; cases h.1
      | inr h => simp [h.2.1]
    obtain ⟨o, ho⟩ := List.length_eq_one_iff.mp (hlen.trans hone)
    have hif : o ∈ c.iface := List.mem_append_left _ (by simp [ho])
    refine ⟨{ s with io := Function.update s.io o (s.env v) }, ?_, rfl, ?_, ?_⟩
    · rw [EmitCtx.returnStores, hs, if_neg Bool.false_ne_true, ho, List.getD_cons_zero,
        runInsns_single, run_store hif]
    · intro j x hx
      rw [ho] at hx
      cases j with
      | zero =>
        obtain rfl : o = x := by simpa using hx
        rw [hpart, hs]
        simp
      | succ j => simp at hx
    · intro x hx
      refine Function.update_of_ne ?_ _ _
      rintro rfl
      exact hx (by simp [ho])

end Returns

section Blocks
variable (hm : m.Kernel g) (hc : c.For g m f) (hent : m.EntryFn f) (hst : m.Steady g f)
variable (hlaw : I.Lawful g m)
include hm hc hent hst hlaw

/-- A return and the stores that stand for it. -/
theorem exec_return {R J : State V Mem → State V Mem → Prop} {i : Insn} (hi : i ∈ f.insns)
    (hop : i.op = .returnValue) {n : Nat} (hn : c.planned ≤ n)
    (hs : StateRel c I (m.Loose f) s s') :
    Step.Rel R J (EntryExit c.outVars (m.part I f)) (execInsn g I call [] i s)
      (runInsns (execInsn g I call' c.iface) (c.returnStores n (i.arg 0) ++ [⟨.ret, []⟩]) s') := by
  have ha := hm.arity_insns hent.mem i hi
  have h1 : i.args.length = 1 := by simpa [Insn.arity, hop] using ha
  have hcode := code_sub hent.mem (insns_sub_code hi)
  have hused : i.arg 0 ∈ i.uses g := by
    simp [Insn.uses, hop, take_one_args (show 0 < i.args.length by omega)]
  have hlt := lt_planned_of_def hm hc (hm.ids.closed i hcode _ hused)
  obtain ⟨t, hrun, hmem, hcells, hothers⟩ := run_returnStores call' hm hc hlaw
    (show i.arg 0 < n by omega) s'
  have hexec : execInsn g I call [] i s = .exit (.returned (some (s.env (i.arg 0))) s.mem s.io) := by
    simp [execInsn, hop]
  rw [hexec, runInsns_append, hrun, Step.andThen, runInsns_single]
  have hret : execInsn g I call' c.iface ⟨.ret, []⟩ t = .exit (.returned none t.mem t.io) := rfl
  rw [hret, hmem, ← hs.mem]
  refine .exit (.returned _ _ _ _ ?_ ?_)
  · intro j o ho
    have hsome : m.returnsNothing f = false := by
      rw [← Bool.not_eq_true, returnsNothing_iff hm hc, ← List.length_eq_zero_iff,
        ← hc.outVars_length]
      have := (List.getElem?_eq_some_iff.mp ho).1
      omega
    have hval : i.arg 0 ∈ m.usesAfter g f := by
      refine usesAfter_entry hent.mem (List.mem_append_right _ (List.mem_flatMap.mpr ⟨i, hi, ?_⟩))
      simp [Module.entryUses, hsome, keptUses_returnValue hop,
        take_one_args (show 0 < i.args.length by omega)]
    rw [hcells j o ho, ← hs.env _ (usesAfter_tight hm hent.mem hst hval)]
  · intro x hx
    rw [hothers x hx, hs.io]

omit hlaw in
/-- What an instruction of the entry goes on using. -/
theorem entry_shared {i : Insn} (hi : i ∈ f.insns) (hop : i.op ≠ .returnValue) {x : Nat}
    (hx : x ∈ m.keptUses g i) : ¬ m.Loose f x ∧ x ∉ c.iface := by
  refine usesAfter_shared hm hc hent.mem hst (usesAfter_entry hent.mem ?_)
  refine List.mem_append_right _ (List.mem_flatMap.mpr ⟨i, hi, ?_⟩)
  simpa [Module.entryUses, hop] using hx

/-- An instruction of the entry that is no return; `D` are the ids left apart there. -/
theorem exec_entry {fuel : Nat} (hcalls : SameCalls g m f c I ρ₀ ρ₀' fuel) {b : Block}
    (hb : b ∈ f.blocks) {i : Insn} (hi : i ∈ b.insns) (hop : i.op ≠ .returnValue)
    (hD : ∀ x, m.Loose f x → D x) (hu : ∀ x ∈ m.keptUses g i, ¬ D x)
    (hs : StateRel c I D s s') :
    Step.Rel (StateRel c I D) (StateRel c I D) (EntryExit c.outVars (m.part I f))
      (execInsn g I (callFn g I m [] ρ₀ fuel) [] i s)
      (runInsns (execInsn g I (callFn g I (c.rewriteModule c.planned m f) c.iface ρ₀' fuel)
        c.iface) (c.rewriteInsn i) s') := by
  have hmem := mem_insns hb hi
  have hi' : Faithful g m c D c.iface (callFn g I m [] ρ₀ fuel)
      (callFn g I (c.rewriteModule c.planned m f) c.iface ρ₀' fuel) i :=
    faithful hm hc hent.mem hb hi hD
      (fun x hx => ⟨hu x hx, (entry_shared hm hc hent hst hmem hop hx).2⟩)
      fun hcall => (hcalls _ (hent.uncalled f hent.mem i hmem hcall)).symm
  refine exec_rewriteInsn hc hlaw hi' hs .ended ?_
  rintro (h | h)
  · exact absurd h (hent.value i hmem)
  · exact absurd h hop

/-- Instructions of a block of the entry, once the parameters are loaded. -/
theorem run_entryInsns {fuel : Nat} (hcalls : SameCalls g m f c I ρ₀ ρ₀' fuel) {b : Block}
    (hb : b ∈ f.blocks) {is : List Insn} (his : ∀ i ∈ is, i ∈ b.insns) {n : Nat}
    (hn : c.planned ≤ n) (hs : StateRel c I (m.Loose f) s s') :
    Step.Rel (StateRel c I (m.Loose f)) (StateRel c I (m.Loose f))
      (EntryExit c.outVars (m.part I f))
      (runInsns (execInsn g I (callFn g I m [] ρ₀ fuel) []) is s)
      (runInsns (execInsn g I (callFn g I (c.rewriteModule c.planned m f) c.iface ρ₀' fuel)
        c.iface) (is.flatMap (c.rewriteAt n)) s') := by
  refine runInsns_flatMap_rel (fun i hi t t' ht => ?_) s s' hs
  have hmem := mem_insns hb (his i hi)
  rw [EmitCtx.rewriteAt]
  split_ifs with hop
  · exact exec_return hm hc hent hst hlaw hmem hop hn ht
  · exact exec_entry hm hc hent hst hlaw hcalls hb (his i hi) hop (fun x hx => hx)
      (fun x hx => (entry_shared hm hc hent hst hmem hop hx).1) ht

end Blocks

section Loads
variable {iface : List Nat}

/-- The Input variables hold the parameters. -/
def Held (f : Fn) (c : EmitCtx) (s : State V Mem) : Prop :=
  ∀ q ∈ f.params.zip c.inVars, s.io q.2 = s.env q.1

/-- Ids apart when a block is entered: in the first block, the parameters too. -/
def Module.Apart (m : Module) (f : Fn) (x : Nat) : Prop := m.Loose f x ∨ x ∈ f.params

/-- Loads bring the parameters together. -/
theorem run_loads {ps ts vs : List Nat} (hts : ts.length = ps.length) (hvs : vs.length = ps.length)
    (hif : ∀ x ∈ vs, x ∈ iface) (hheld : ∀ q ∈ ps.zip vs, s.io q.2 = s.env q.1)
    (hz : c.ids.uintZeroId ∉ ps) (h : StateRel c I (fun x => D x ∨ x ∈ ps) s s') :
    ∃ t', runInsns (execInsn g I call iface)
        (((ps.zip ts).zip vs).map fun p => ⟨.load, [p.1.2, p.1.1, p.2]⟩) s' = .next t' ∧
      StateRel c I D s t' := by
  induction ps generalizing ts vs s' with
  | nil => exact ⟨s', rfl, { h with env := h.env.mono (by simp) }⟩
  | cons p ps ih =>
    obtain ⟨t, ts, rfl⟩ := List.exists_cons_of_length_eq_add_one hts
    obtain ⟨x, vs, rfl⟩ := List.exists_cons_of_length_eq_add_one hvs
    rw [List.mem_cons, not_or] at hz
    have hio : s'.io x = s.env p := by
      rw [← h.io]
      exact hheld (p, x) (by simp)
    let s₂ : State V Mem := { s' with env := Function.update s'.env p (s'.io x) }
    have h₂ : StateRel c I (fun y => D y ∨ y ∈ ps) s s₂ := by
      refine { h with env := fun y hy => ?_, zero := ?_ }
      · by_cases hyp : y = p
        · subst hyp
          simp only [s₂, Function.update_self, hio]
        · simp only [s₂, Function.update_of_ne hyp]
          refine h.env y ?_
          rw [List.mem_cons]
          tauto
      · simp only [s₂, Function.update_of_ne hz.1]
        exact h.zero
    obtain ⟨t', hrun, ht'⟩ := ih (by simpa using hts) (by simpa using hvs)
      (fun y hy => hif y (List.mem_cons_of_mem x hy))
      (fun q hq => hheld q (by simp [hq])) hz.2 h₂
    refine ⟨t', ?_, ht'⟩
    rw [List.zip_cons_cons, List.zip_cons_cons, List.map_cons, runInsns,
      run_load (hif x List.mem_cons_self), Step.andThen]
    exact hrun

end Loads

section First
variable (hm : m.Kernel g) (hc : c.For g m f) (hent : m.EntryFn f) (hst : m.Steady g f)
variable (hlaw : I.Lawful g m)

include hm in
/-- No instruction of a function defines one of its parameters. -/
theorem result_not_param {h : Fn} (hh : h ∈ m.fns) {b : Block} (hb : b ∈ h.blocks) {i : Insn}
    (hi : i ∈ b.insns) {r : Nat} (hr : i.result g = some r) : r ∉ h.params := by
  intro hp
  have hfns := (List.nodup_append.mp hm.ids.nodup).2.1
  have hdefs : (h.defs g).Nodup := (List.nodup_flatMap.mp hfns).1 h hh
  have hlocal : r ∈ h.blocks.flatMap (Block.defs g) :=
    List.mem_flatMap.mpr ⟨b, hb, List.mem_cons_of_mem _ (mem_results hi hr)⟩
  exact (List.nodup_append.mp hdefs).2.2 r (List.mem_cons_of_mem _ hp) r hlocal rfl

include hm in
theorem params_nodup {h : Fn} (hh : h ∈ m.fns) : h.params.Nodup := by
  have hfns := (List.nodup_append.mp hm.ids.nodup).2.1
  have hdefs : (h.defs g).Nodup := (List.nodup_flatMap.mp hfns).1 h hh
  exact (List.nodup_cons.mp (List.nodup_append.mp hdefs).1).2

include hm in
/-- Parameters keep their values. -/
theorem held_step (hf : f ∈ m.fns) {fuel : Nat} {b : Block} (hb : b ∈ f.blocks) {i : Insn}
    (hi : i ∈ b.insns) (hs : Held f c s) :
    (execInsn g I (callFn g I m [] ρ₀ fuel) [] i s).All (Held f c) (fun _ => True) := by
  have hcall : ∀ id args mem io e, callFn g I m [] ρ₀ fuel id args mem io = some e → e.io = io :=
    fun _ _ _ _ _ he => callFn_io he
  have hframe := execInsn_frame (g := g) (I := I) hcall i s
  have hkeep : ∀ t : State V Mem, t.io = s.io →
      (∀ x, i.result g ≠ some x → t.env x = s.env x) → Held f c t := by
    intro t hio henv q hq
    rw [hio, henv q.1 fun hr => result_not_param hm hf hb hi hr (List.of_mem_zip hq).1]
    exact hs q hq
  cases ho : execInsn g I (callFn g I m [] ρ₀ fuel) [] i s with
  | next t => rw [ho] at hframe; exact hkeep t hframe.1 hframe.2
  | jump l t => rw [ho] at hframe; exact hkeep t hframe.1 hframe.2
  | exit e => trivial
  | stuck => trivial

include hm in
theorem held_run (hf : f ∈ m.fns) {fuel : Nat} {b : Block} (hb : b ∈ f.blocks) (hs : Held f c s) :
    (runInsns (execInsn g I (callFn g I m [] ρ₀ fuel) []) b.insns s).All (Held f c)
      (fun _ => True) :=
  runInsns_all (fun _ hi _ h => held_step hm hf hb hi h) s hs

theorem isEarly_not_terminator {i : Insn} (h : c.isEarly i = true) : i.op.isTerminator = false := by
  cases ht : i.op.isTerminator with
  | false => rfl
  | true => rw [EmitCtx.not_early ht] at h; cases h

/-- No early cast is of a parameter that is still to be loaded. -/
def Module.LoadsFirst (m : Module) (f : Fn) : Prop :=
  f.headerLines.isEmpty → ∀ x ∈ m.earlySources f, x ∉ f.params

instance (m : Module) (f : Fn) : Decidable (m.LoadsFirst f) := by
  unfold Module.LoadsFirst
  infer_instance

variable (hload : m.LoadsFirst f)
include hm hc hent hst hload

/-- What comes before the loads uses no parameter. -/
theorem early_shared {b : Block} {bs : List Block} (hbs : f.blocks = b :: bs) {i : Insn}
    (hi : i ∈ b.insns.takeWhile c.isEarly) {x : Nat} (hx : x ∈ m.keptUses g i) :
    ¬ m.Apart f x := by
  have hb : b ∈ f.blocks := by simp [hbs]
  have hib := (List.takeWhile_sublist _).subset hi
  have hop := not_return_of_not_terminator (isEarly_not_terminator (List.mem_takeWhile_imp hi))
  have hloose := (entry_shared hm hc hent hst (mem_insns hb hib) hop hx).1
  have hcongr : ∀ j ∈ b.insns, c.isEarly j = m.isEarly j := fun j hj =>
    isEarly_eq hc ((hm.fns f hent.mem).insns j (mem_insns hb hj))
      (hm.arity_insns hent.mem j (mem_insns hb hj))
  rintro (h | hp)
  · exact hloose h
  cases hl : f.headerLines.isEmpty with
  | false =>
    refine hloose (.inr (.inl (List.mem_append_right _ ?_)))
    simp [Fn.unloadedParams, hl, hp]
  | true =>
    obtain ⟨i', hi', hx'⟩ := keptUses_rewriteInsn hc (hm.arity_insns hent.mem i (mem_insns hb hib)) hx
    have hi'' : i' ∈ c.rewriteAt c.planned i := by rwa [EmitCtx.rewriteAt, if_neg hop]
    have hearly := List.mem_takeWhile_imp hi
    rw [hcongr i hib] at hearly
    obtain ⟨hrec, hdc, rfl⟩ := early_uses hm hc hent.mem hb hib hearly hi'' hx' hp
    refine hload hl _ ?_ hp
    rw [takeWhile_congr hcongr] at hi
    simp only [Module.earlySources, hbs, List.mem_map, List.mem_filter]
    exact ⟨i, ⟨hi, by simp [hrec, hdc]⟩, rfl⟩

include hlaw

/-- First block, with the loads spliced in. -/
theorem run_first {fuel : Nat} (hcalls : SameCalls g m f c I ρ₀ ρ₀' fuel) {b : Block}
    {bs : List Block} (hbs : f.blocks = b :: bs) (hheld : Held f c s)
    (hs : StateRel c I (m.Apart f) s s') :
    Step.Rel (StateRel c I (m.Loose f)) (StateRel c I (m.Loose f))
      (EntryExit c.outVars (m.part I f))
      (runInsns (execInsn g I (callFn g I m [] ρ₀ fuel) []) b.insns s)
      (runInsns (execInsn g I (callFn g I (c.rewriteModule c.planned m f) c.iface ρ₀' fuel)
        c.iface) (c.rewriteFirst c.planned (if f.headerLines.isEmpty then c.loads else []) b).insns
        s') := by
  have hb : b ∈ f.blocks := by simp [hbs]
  have hearly : Step.Rel (fun s s' => StateRel c I (m.Apart f) s s' ∧ Held f c s)
      (StateRel c I (m.Loose f)) (EntryExit c.outVars (m.part I f))
      (runInsns (execInsn g I (callFn g I m [] ρ₀ fuel) []) (b.insns.takeWhile c.isEarly) s)
      (runInsns (execInsn g I (callFn g I (c.rewriteModule c.planned m f) c.iface ρ₀' fuel)
        c.iface) ((b.insns.takeWhile c.isEarly).flatMap (c.rewriteAt c.planned)) s') := by
    refine runInsns_flatMap_rel (fun i hi t t' ht => ?_) s s' ⟨hs, hheld⟩
    have hib := (List.takeWhile_sublist _).subset hi
    have hterm := isEarly_not_terminator (List.mem_takeWhile_imp hi)
    have hop := not_return_of_not_terminator hterm
    rw [EmitCtx.rewriteAt, if_neg hop]
    have hrel := exec_entry hm hc hent hst hlaw hcalls hb hib hop (fun x hx => .inl hx)
      (fun x hx => early_shared hm hc hent hst hload hbs hi hx) ht.1
    exact (hrel.and (held_step hm hent.mem hb hib ht.2)).noJump (execInsn_no_jump hterm t)
  have hsplit : b.insns = b.insns.takeWhile c.isEarly ++ b.insns.dropWhile c.isEarly :=
    List.takeWhile_append_dropWhile.symm
  rw [EmitCtx.rewriteFirst]
  conv => arg 4; rw [hsplit]
  refine runInsns_append_rel hearly fun t t' ht => ?_
  have hloaded : ∃ t₂, runInsns
      (execInsn g I (callFn g I (c.rewriteModule c.planned m f) c.iface ρ₀' fuel) c.iface)
      (if f.headerLines.isEmpty then c.loads else []) t' = .next t₂ ∧
      StateRel c I (m.Loose f) t t₂ := by
    cases hl : f.headerLines.isEmpty with
    | false =>
      refine ⟨t', rfl, { ht.1 with env := ht.1.env.mono fun x hx => ?_ }⟩
      cases hx with
      | inl h => exact h
      | inr h =>
        refine .inr (.inl (List.mem_append_right _ ?_))
        simp [Fn.unloadedParams, hl, h]
    | true =>
      have hp := hc.params hl
      have hts : c.scan.paramTypes.length = f.params.length := by
        rw [hc.scan.params]
        simp [Fn.params, Fn.paramTypes]
      have hz : c.ids.uintZeroId ∉ f.params := by
        intro hz
        obtain ⟨hng, hd⟩ := param_not_global hm hent.mem hz
        exact zero_not_local hm hc hd hng rfl
      rw [if_pos rfl, EmitCtx.loads, hp]
      exact run_loads hts (hc.inVars_length.trans hts)
        (fun x hx => List.mem_append_right _ hx) ht.2 hz ht.1
  obtain ⟨t₂, hrun, ht₂⟩ := hloaded
  rw [runInsns_append, hrun, Step.andThen]
  exact run_entryInsns hm hc hent hst hlaw hcalls hb
    (fun i hi => (List.dropWhile_sublist _).subset hi) le_rfl ht₂

end First

section Runs

/-- Lookups in the rewritten blocks. -/
theorem find_rewriteBlocks (l : Nat) (bs : List Block) (n : Nat) :
    (bs.find? (·.label == l) = none ∧ (c.rewriteBlocks n bs).find? (·.label == l) = none) ∨
      ∃ b k, bs.find? (·.label == l) = some b ∧ n ≤ k ∧
        (c.rewriteBlocks n bs).find? (·.label == l) = some (c.rewriteBlock k b) := by
  induction bs generalizing n with
  | nil => exact .inl ⟨rfl, rfl⟩
  | cons b bs ih =>
    have hlabel : (c.rewriteBlock n b).label = b.label := rfl
    rw [EmitCtx.rewriteBlocks, List.find?_cons, List.find?_cons, hlabel]
    cases b.label == l with
    | true => exact .inr ⟨b, n, rfl, le_rfl, rfl⟩
    | false =>
      obtain h | ⟨b', k, hb', hk, h⟩ := ih (c.nextAfter n b)
      · exact .inl h
      · have := c.nextAfter_eq n b
        exact .inr ⟨b', k, hb', by omega, h⟩

/-- Where a matching line leaves the run. -/
theorem outcome_rel {R J : State V Mem → State V Mem → Prop}
    {E : Exit V Mem → Exit V Mem → Prop} {o o' : Step (State V Mem) (Exit V Mem)}
    {next next' : Nat → State V Mem → Option (Exit V Mem)} (h : Step.Rel R J E o o')
    (hj : ∀ l t t', J t t' → Option.Rel E (next l t) (next' l t')) :
    Option.Rel E (outcome next o) (outcome next' o') := by
  cases h with
  | next h => exact .none
  | jump h => exact hj _ _ _ h
  | exit h => exact .some h
  | stuck => exact .none

variable (hm : m.Kernel g) (hc : c.For g m f) (hent : m.EntryFn f) (hst : m.Steady g f)
variable (hlaw : I.Lawful g m) (hload : m.LoadsFirst f)
include hm hc hent hst hlaw hload

/-- The entry from a label; only before the first block may the parameters be apart. -/
theorem runFrom_entry (hρ : AgreeOff (m.Loose f) ρ₀ ρ₀') (hzero : ρ₀' c.ids.uintZeroId = I.zero)
    {b : Block} {bs : List Block} (hbs : f.blocks = b :: bs) (fuel : Nat) :
    ∀ l s s', Held f c s → StateRel c I (fun x => m.Loose f x ∨ l = b.label ∧ x ∈ f.params) s s' →
      Option.Rel (EntryExit c.outVars (m.part I f)) (runFrom g I m [] ρ₀ fuel f l s)
        (runFrom g I (c.rewriteModule c.planned m f) c.iface ρ₀' fuel
          (c.rewriteEntry c.planned f) l s') := by
  induction fuel with
  | zero => exact fun _ _ _ _ _ => .none
  | succ fuel ih =>
    intro l s s' hheld hs
    have hcalls := sameCalls_of_runs hm hc hρ hzero
      (sameRuns hm hc hent.mem hst hent hlaw hρ hzero fuel)
    have hheld' : Held f c { s with cur := l, prev := s.cur } := hheld
    have hs' : StateRel c I (fun x => m.Loose f x ∨ l = b.label ∧ x ∈ f.params)
        { s with cur := l, prev := s.cur } { s' with cur := l, prev := s'.cur } :=
      { env := hs.env, zero := hs.zero, mem := hs.mem, io := hs.io, cur := rfl, prev := hs.cur }
    -- a block run keeps the parameters held, so that a jump may start over
    have hblock : ∀ b₁ ∈ f.blocks, ∀ o', Step.Rel (StateRel c I (m.Loose f))
        (StateRel c I (m.Loose f)) (EntryExit c.outVars (m.part I f))
        (runInsns (execInsn g I (callFn g I m [] ρ₀ fuel) []) b₁.insns
          { s with cur := l, prev := s.cur }) o' →
        Option.Rel (EntryExit c.outVars (m.part I f))
          (outcome (runFrom g I m [] ρ₀ fuel f)
            (runInsns (execInsn g I (callFn g I m [] ρ₀ fuel) []) b₁.insns
              { s with cur := l, prev := s.cur }))
          (outcome (runFrom g I (c.rewriteModule c.planned m f) c.iface ρ₀' fuel
            (c.rewriteEntry c.planned f)) o') := by
      intro b₁ hb₁ o' hrel
      exact outcome_rel (hrel.and (held_run hm hent.mem hb₁ hheld')) fun l t t' h =>
        ih l t t' h.2 { h.1 with env := h.1.env.mono fun _ => .inl }
    have hat : f.blockAt l = if b.label == l then some b else bs.find? (·.label == l) := by
      rw [Fn.blockAt, hbs, List.find?_cons]
      cases b.label == l <;> rfl
    have hat' : (c.rewriteEntry c.planned f).blockAt l =
        if b.label == l then
          some (c.rewriteFirst c.planned (if f.headerLines.isEmpty then c.loads else []) b)
        else (c.rewriteBlocks (c.nextAfter c.planned b) bs).find? (·.label == l) := by
      have hlabel : (c.rewriteFirst c.planned
        (if f.headerLines.isEmpty then c.loads else []) b).label = b.label := rfl
      rw [Fn.blockAt, EmitCtx.rewriteEntry, hbs, EmitCtx.rewriteBody, List.find?_cons, hlabel]
      cases b.label == l <;> rfl
    rw [runFrom_succ, runFrom_succ, hat, hat']
    cases hl : b.label == l with
    | true =>
      refine hblock b (by simp [hbs]) _ (run_first hm hc hent hst hlaw hload hcalls hbs hheld' ?_)
      exact { hs' with env := hs'.env.mono fun x hx => hx.imp_right And.right }
    | false =>
      have hne : l ≠ b.label := by
        rintro rfl
        simp at hl
      obtain ⟨h, h'⟩ | ⟨b₁, k, h, hk, h'⟩ :=
        find_rewriteBlocks (c := c) l bs (c.nextAfter c.planned b)
      · rw [if_neg Bool.false_ne_true, if_neg Bool.false_ne_true, h, h']
        exact .none
      · have hb₁ : b₁ ∈ f.blocks := by
          rw [hbs]
          exact List.mem_cons_of_mem _ (List.mem_of_find?_eq_some h)
        have hnext := c.nextAfter_eq c.planned b
        rw [if_neg Bool.false_ne_true, if_neg Bool.false_ne_true, h, h']
        refine hblock b₁ hb₁ _ (run_entryInsns hm hc hent hst hlaw hcalls hb₁ (fun i hi => hi)
          (by omega) ?_)
        refine { hs' with env := hs'.env.mono fun x hx => ?_ }
        cases hx with
        | inl h => exact h
        | inr h => exact absurd h.1 hne

end Runs

end Lagfx.Spirv
