import Lagfx.SignatureDecls

/-! Runs of the functions other than the entry: called with the same arguments, they leave
in the same way. -/
namespace Lagfx.Spirv
open Ssa
variable {V Mem : Type} {g : Grammar} {m : Module} {f : Fn} {c : EmitCtx} {I : Interp V Mem}
variable {D : Nat → Prop} {s s' : State V Mem} {ρ₀ ρ₀' : Nat → V}

/-- Lookups in the rewritten functions. -/
theorem find_rewriteFns (n id : Nat) :
    (c.rewriteFns n m.fns).find? (·.id == id) =
      (m.fns.find? (·.id == id)).map fun h =>
        if h.id = c.scan.fnId then c.rewriteEntry n h else c.rewriteFn h := by
  rw [EmitCtx.rewriteFns, List.find?_map]
  congr 1
  refine congrArg (fun p => m.fns.find? p) (funext fun h => ?_)
  simp only [Function.comp]
  split_ifs <;> rfl

theorem blockAt_rewriteFn (h : Fn) (l : Nat) :
    (c.rewriteFn h).blockAt l =
      (h.blockAt l).map fun b => { b with insns := b.insns.flatMap c.rewriteInsn } := by
  rw [Fn.blockAt, EmitCtx.rewriteFn, List.find?_map]
  rfl

theorem head_rewriteFn (h : Fn) :
    (c.rewriteFn h).blocks.head? =
      h.blocks.head?.map fun b => { b with insns := b.insns.flatMap c.rewriteInsn } := by
  simp [EmitCtx.rewriteFn, List.head?_map]

/-- Parameters bound on both sides. -/
theorem bindParams_agree {ps : List Nat} (h : AgreeOff D ρ₀ ρ₀') (args : List V) :
    AgreeOff D (bindParams ρ₀ ps args) (bindParams ρ₀' ps args) := by
  rw [bindParams, bindParams]
  induction ps.zip args generalizing ρ₀ ρ₀' with
  | nil => exact h
  | cons p ps ih => exact ih (h.update p.1 p.2)

theorem bindParams_ne {ps : List Nat} {x : Nat} (hx : x ∉ ps) (ρ : Nat → V) (args : List V) :
    bindParams ρ ps args x = ρ x := by
  have hz : ∀ p ∈ ps.zip args, p.1 ≠ x := by
    intro p hp he
    exact hx (he ▸ (List.of_mem_zip hp).1)
  rw [bindParams]
  generalize ps.zip args = l at hz
  induction l generalizing ρ with
  | nil => rfl
  | cons p l ih =>
    rw [List.foldl_cons, ih _ fun q hq => hz q (List.mem_cons_of_mem p hq)]
    exact Function.update_of_ne (hz p List.mem_cons_self).symm _ _

/-- Calls of the functions other than the entry, `fuel` jumps and calls deep. -/
def SameCalls (g : Grammar) (m : Module) (f : Fn) (c : EmitCtx) (I : Interp V Mem)
    (ρ₀ ρ₀' : Nat → V) (fuel : Nat) : Prop :=
  ∀ id, id ≠ f.id → callFn g I m [] ρ₀ fuel id =
    callFn g I (c.rewriteModule c.planned m f) c.iface ρ₀' fuel id

/-- Their runs, from matching states. -/
def SameRuns (g : Grammar) (m : Module) (f : Fn) (c : EmitCtx) (I : Interp V Mem)
    (ρ₀ ρ₀' : Nat → V) (fuel : Nat) : Prop :=
  ∀ h ∈ m.fns, h.id ≠ f.id → ∀ l s s', StateRel c I (m.Loose f) s s' →
    runFrom g I m [] ρ₀ fuel h l s =
      runFrom g I (c.rewriteModule c.planned m f) c.iface ρ₀' fuel (c.rewriteFn h) l s'

section Kernel
variable (hm : m.Kernel g) (hc : c.For g m f)
include hm hc

/-- Local results are not the zero index. -/
theorem zero_not_local {x : Nat} (hd : x ∈ m.defs g) (hg : x ∉ results g m.globals) :
    x ≠ c.ids.uintZeroId := by
  rintro rfl
  cases hc.zero_cases with
  | inl h => exact hg h
  | inr h => exact def_not_fresh hm hc hd h

/-- What is used in the module's functions means the same, and is no interface variable. -/
theorem usesAfter_shared (hf : f ∈ m.fns) (hst : m.Steady g f) {x : Nat} (hx : x ∈ m.usesAfter g f) : ¬ m.Loose f x ∧ x ∉ c.iface :=
  ⟨usesAfter_tight hm hf hst hx, fun hif =>
    def_not_fresh hm hc (usesAfter_defined hm hf hx) (iface_fresh hc hif)⟩

/-- Instructions of a function's blocks, given what they go on using. -/
theorem faithful {h : Fn} (hh : h ∈ m.fns) {b : Block} (hb : b ∈ h.blocks) {i : Insn}
    (hi : i ∈ b.insns) {call call' : Nat → List V → Mem → (Nat → V) → Option (Exit V Mem)}
    (hD : ∀ x, m.Loose f x → D x) (hu : ∀ x ∈ m.keptUses g i, ¬ D x ∧ x ∉ c.iface)
    (hcall : i.op = .functionCall → call' (i.arg 2) = call (i.arg 2)) :
    Faithful g m c D c.iface call call' i where
  mem := code_sub hh (insns_sub_code (mem_insns hb hi))
  inBlock := (hm.fns h hh).insns i (mem_insns hb hi)
  arity := hm.arity_insns hh i (mem_insns hb hi)
  element hrec := by
    obtain ⟨hop, hmem⟩ := Module.isRecordedCast_op hrec
    exact hm.casts h hh i (mem_insns hb hi) hop (recorded_isPointerType hm hmem)
  uses := hu
  dead hd := by
    refine hD _ (.inr (.inl (List.mem_append_left _ (List.mem_flatMap.mpr ⟨h, hh, ?_⟩))))
    exact List.mem_map.mpr ⟨i, List.mem_filter.mpr ⟨mem_insns hb hi, hd⟩, rfl⟩
  zero hz := by
    obtain ⟨hng, hd⟩ := local_not_global hm hh hb hi hz
    exact zero_not_local hm hc hd hng rfl
  callee := hcall

variable (hf : f ∈ m.fns) (hst : m.Steady g f) (hent : m.EntryFn f) (hlaw : I.Lawful g m)

/-- State a call starts from. -/
theorem entered (hρ : AgreeOff (m.Loose f) ρ₀ ρ₀') (hzero : ρ₀' c.ids.uintZeroId = I.zero)
    {h : Fn} (hh : h ∈ m.fns) (args : List V) (mem : Mem) (io : Nat → V) :
    StateRel c I (m.Loose f) { env := bindParams ρ₀ h.params args, mem := mem, io := io }
      { env := bindParams ρ₀' h.params args, mem := mem, io := io } := by
  have hz : c.ids.uintZeroId ∉ h.params := by
    intro hp
    obtain ⟨hng, hd⟩ := param_not_global hm hh hp
    exact zero_not_local hm hc hd hng rfl
  exact {
    env := bindParams_agree hρ args
    zero := (bindParams_ne hz ρ₀' args).trans hzero
    mem := rfl
    io := rfl
    cur := rfl
    prev := rfl }

theorem sameCalls_of_runs (hρ : AgreeOff (m.Loose f) ρ₀ ρ₀')
    (hzero : ρ₀' c.ids.uintZeroId = I.zero) {fuel : Nat}
    (hrun : SameRuns g m f c I ρ₀ ρ₀' fuel) : SameCalls g m f c I ρ₀ ρ₀' fuel := by
  intro id hid
  funext args mem io
  have hfind : (c.rewriteModule c.planned m f).fns.find? (·.id == id) = _ :=
    find_rewriteFns (m := m) (c := c) c.planned id
  simp only [callFn, hfind]
  cases hfn : m.fns.find? (·.id == id) with
  | none => rfl
  | some h =>
    have hh := List.mem_of_find?_eq_some hfn
    have hhid : h.id = id := by simpa using List.find?_some hfn
    have hne : h.id ≠ c.scan.fnId := by
      rw [hc.fnId, hhid]
      exact hid
    simp only [Option.map_some, if_neg hne, head_rewriteFn]
    cases h.blocks.head? with
    | none => rfl
    | some first =>
      exact hrun h hh (hhid ▸ hid) _ _ _ (entered hm hc hρ hzero hh args mem io)

include hf hst hent hlaw

/-- A block of another function. -/
theorem runBlock_other {fuel : Nat} (hcalls : SameCalls g m f c I ρ₀ ρ₀' fuel) {h : Fn}
    (hh : h ∈ m.fns) (hid : h.id ≠ f.id) {b : Block} (hb : b ∈ h.blocks)
    (hs : StateRel c I (m.Loose f) s s') :
    Step.Rel (StateRel c I (m.Loose f)) (StateRel c I (m.Loose f)) Eq
      (runInsns (execInsn g I (callFn g I m [] ρ₀ fuel) []) b.insns s)
      (runInsns (execInsn g I (callFn g I (c.rewriteModule c.planned m f) c.iface ρ₀' fuel)
        c.iface) (b.insns.flatMap c.rewriteInsn) s') := by
  refine runInsns_flatMap_rel (fun i hi t t' ht => ?_) s s' hs
  have hcode := insns_sub_code (mem_insns hb hi)
  have hi' : Faithful g m c (m.Loose f) c.iface (callFn g I m [] ρ₀ fuel)
      (callFn g I (c.rewriteModule c.planned m f) c.iface ρ₀' fuel) i := by
    refine faithful hm hc hh hb hi (fun x hx => hx) (fun x hx => ?_) fun hop => ?_
    · refine usesAfter_shared hm hc hf hst (List.mem_append_right _ ?_)
      refine List.mem_flatMap.mpr ⟨h, hh, ?_⟩
      rw [if_neg hid]
      exact List.mem_flatMap.mpr ⟨i, hcode, hx⟩
    · exact (hcalls _ (hent.uncalled h hh i (mem_insns hb hi) hop)).symm
  exact exec_rewriteInsn hc hlaw hi' ht (fun _ _ => rfl) fun _ _ => rfl

/-- The other functions run as before. -/
theorem sameRuns (hρ : AgreeOff (m.Loose f) ρ₀ ρ₀') (hzero : ρ₀' c.ids.uintZeroId = I.zero)
    (fuel : Nat) : SameRuns g m f c I ρ₀ ρ₀' fuel := by
  induction fuel with
  | zero => exact fun _ _ _ _ _ _ _ => rfl
  | succ fuel ih =>
    intro h hh hid l s s' hs
    have hcalls := sameCalls_of_runs hm hc hρ hzero ih
    rw [runFrom_succ, runFrom_succ, blockAt_rewriteFn]
    cases hb : h.blockAt l with
    | none => rfl
    | some b =>
      have hmem : b ∈ h.blocks := List.mem_of_find?_eq_some hb
      have hs' : StateRel c I (m.Loose f) { s with cur := l, prev := s.cur }
          { s' with cur := l, prev := s'.cur } :=
        { env := hs.env, zero := hs.zero, mem := hs.mem, io := hs.io, cur := rfl, prev := hs.cur }
      have hrel := runBlock_other hm hc hf hst hent hlaw hcalls hh hid hmem hs'
      simp only [Option.map_some, Option.bind_some]
      generalize runInsns (execInsn g I (callFn g I m [] ρ₀ fuel) []) b.insns
        { s with cur := l, prev := s.cur } = o at hrel ⊢
      generalize runInsns _ (b.insns.flatMap c.rewriteInsn) _ = o' at hrel ⊢
      cases hrel with
      | next h => rfl
      | jump ht => exact ih h hh hid _ _ _ ht
      | exit he => exact congrArg some he
      | stuck => rfl

end Kernel

end Lagfx.Spirv
