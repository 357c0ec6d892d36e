import Lagfx.SignatureOrder
import Lagfx.SpirvRun

/-! Runs of the rewritten module: the other functions run as before, and the entry leaves
in the Output variables the members of what it used to return. -/
namespace Lagfx.Spirv
open Ssa
variable {V Mem : Type} {g : Grammar} {m : Module} {f : Fn} {c : EmitCtx} {I : Interp V Mem}

/-- Undefined constants: each OpUndef, and each cast of one. -/
def Module.undefs (m : Module) : List Nat :=
  m.globals.foldl (fun us i =>
    if i.op = .undef ∨ isSpecBitcast i = true ∧ i.arg 3 ∈ us then i.arg 1 :: us else us) []

/-- A spec-constant cast of an undefined value. -/
def Module.castsUndef (m : Module) (i : Insn) : Bool := m.undefs.contains (i.arg 3)

/- What the pass relies on. `cast`: from a pointer to an array, an access chain to element
   zero is the cast to a pointer to the element. `pureCast`: a cast only makes a value.
   `lifetime`: a marker only declares. `undef`: the cast of an undefined constant is
   undefined, and is read as the OpUndef of its id. -/
structure Interp.Lawful (g : Grammar) (m : Module) (I : Interp V Mem) : Prop where
  cast : ∀ i ∈ m.code, i.op = .bitcast → m.CastsToElement g i → ∀ prev z vt v mem,
    I.eval prev ⟨.accessChain, [i.arg 0, i.arg 1, i.arg 2, z]⟩ [vt, v, I.zero] mem =
      I.eval prev i [vt, v] mem
  pureCast : ∀ i, i.op = .bitcast → ∀ prev vs mem, ∃ v, I.eval prev i vs mem = some (v, mem)
  lifetime : ∀ i, isLifetime i = true → ∀ prev vs mem, ∃ v, I.eval prev i vs mem = some (v, mem)
  extract : ∀ prev t r x k vt v mem,
    I.eval prev ⟨.compositeExtract, [t, r, x, k]⟩ [vt, v] mem = some (I.member v k, mem)
  zero : ∀ t z, I.const ⟨.constant, [t, z, 0]⟩ [I.const ⟨.typeInt, [t, 32, 0]⟩ []] = I.zero
  undef : ∀ i ∈ m.globals, isSpecBitcast i = true → m.castsUndef i = true → ∀ vt v,
    I.const i [vt, v] = I.const ⟨.undef, [i.arg 0, i.arg 1]⟩ [vt]

/-- Ids the two runs need not agree on. -/
def Module.Loose (m : Module) (f : Fn) (x : Nat) : Prop :=
  m.bound ≤ x ∨ x ∈ m.lostIds f ∨
    ∃ i ∈ m.globals, isSpecBitcast i = true ∧ m.castsUndef i = false ∧ i.arg 1 = x

/-- The uses that stay are of ids that mean the same. -/
structure Module.Steady (g : Grammar) (m : Module) (f : Fn) : Prop where
  lost : ∀ x ∈ m.usesAfter g f, x ∉ m.lostIds f
  spec : ∀ i ∈ m.globals, isSpecBitcast i = true → m.castsUndef i = false →
    i.arg 1 ∉ m.usesAfter g f

/-- Matching states; `D` the ids left apart. -/
structure StateRel (c : EmitCtx) (I : Interp V Mem) (D : Nat → Prop) (s s' : State V Mem) :
    Prop where
  env : AgreeOff D s.env s'.env
  zero : s'.env c.ids.uintZeroId = I.zero
  mem : s.mem = s'.mem
  io : s.io = s'.io
  cur : s.cur = s'.cur
  prev : s.prev = s'.prev

theorem usesAfter_tight (hm : m.Kernel g) (hf : f ∈ m.fns) (hst : m.Steady g f) {x : Nat}
    (hx : x ∈ m.usesAfter g f) : ¬ m.Loose f x := by
  rintro (h | h | ⟨i, hi, hs, hu, rfl⟩)
  · have := (hm.ids.below x (usesAfter_defined hm hf hx)).2
    omega
  · exact hst.lost x hx h
  · exact hst.spec i hi hs hu hx

section Instructions
variable {D : Nat → Prop} {E : Exit V Mem → Exit V Mem → Prop} {s s' : State V Mem} {i : Insn}
variable {call call' : Nat → List V → Mem → (Nat → V) → Option (Exit V Mem)} {iface : List Nat}

/-- One result bound on both sides. -/
theorem StateRel.bind (h : StateRel c I D s s') {r : Option Nat} (hr : r ≠ some c.ids.uintZeroId)
    (v : V) (mem : Mem) (io : Nat → V) :
    StateRel c I D { s with env := bindResult s.env r v, mem := mem, io := io }
      { s' with env := bindResult s'.env r v, mem := mem, io := io } := by
  cases r with
  | none => exact { env := h.env, zero := h.zero, mem := rfl, io := rfl, cur := h.cur, prev := h.prev }
  | some r =>
    have hne : c.ids.uintZeroId ≠ r := fun he => hr (by rw [he])
    refine { env := h.env.update r v, zero := ?_, mem := rfl, io := rfl, cur := h.cur, prev := h.prev }
    simp only [bindResult, Function.update_of_ne hne]
    exact h.zero

/-- An instruction that reads the same values does the same. -/
theorem execOrdinary_rel {i' : Insn} (h : StateRel c I D s s')
    (hE : ∀ mem io, E (.ended mem io) (.ended mem io))
    (ht : i'.op.isTerminator = i.op.isTerminator) (hr : i'.result g = i.result g)
    (hz : i.result g ≠ some c.ids.uintZeroId)
    (hb : i.op.isTerminator = true →
      I.branch i' ((i'.uses g).map s'.env) = I.branch i ((i.uses g).map s.env))
    (he : I.eval s'.prev i' ((i'.uses g).map s'.env) s'.mem =
      I.eval s.prev i ((i.uses g).map s.env) s.mem) :
    Step.Rel (StateRel c I D) (StateRel c I D) E (execOrdinary g I i s)
      (execOrdinary g I i' s') := by
  simp only [execOrdinary, ht, he, hr]
  cases hterm : i.op.isTerminator with
  | true =>
    simp only [if_true, hb hterm]
    cases I.branch i ((i.uses g).map s.env) with
    | none =>
      simp only [← h.mem, ← h.io]
      exact .exit (hE _ _)
    | some l => exact .jump h
  | false =>
    simp only [Bool.false_eq_true, if_false]
    cases I.eval s.prev i ((i.uses g).map s.env) s.mem with
    | none => exact .stuck
    | some p =>
      have hb := h.bind hz p.1 p.2 s.io
      exact .next { env := hb.env, zero := hb.zero, mem := rfl, io := h.io, cur := h.cur, prev := h.prev }

/-- An instruction kept as it is. -/
theorem execInsn_kept (h : StateRel c I D s s')
    (hE : ∀ mem io, E (.ended mem io) (.ended mem io))
    (hret : i.op = .ret ∨ i.op = .returnValue → ∀ e, E e e)
    (ha : i.arity = true) (hu : ∀ x ∈ i.uses g, ¬ D x) (hif : ∀ x ∈ i.uses g, x ∉ iface)
    (hz : i.result g ≠ some c.ids.uintZeroId)
    (hcall : i.op = .functionCall → call' (i.arg 2) = call (i.arg 2)) :
    Step.Rel (StateRel c I D) (StateRel c I D) E (execInsn g I call [] i s)
      (execInsn g I call' iface i s') := by
  have hvals := h.env.map hu
  have hord : Step.Rel (StateRel c I D) (StateRel c I D) E (execOrdinary g I i s)
      (execOrdinary g I i s') :=
    execOrdinary_rel h hE rfl rfl hz (fun _ => by rw [hvals]) (by rw [hvals, h.prev, h.mem])
  obtain ⟨op, args⟩ := i
  cases op
  case ret =>
    simp only [execInsn, ← h.mem, ← h.io]
    exact .exit (hret (.inl rfl) _)
  case returnValue =>
    have h1 : args.length = 1 := by simpa [Insn.arity] using ha
    obtain ⟨v, rfl⟩ := List.length_eq_one_iff.mp h1
    have hv : s.env v = s'.env v := h.env v (hu v (by simp [Insn.uses]))
    simp only [execInsn, Insn.arg, List.getD_cons_zero, ← h.mem, ← h.io, ← hv]
    exact .exit (hret (.inr rfl) _)
  case functionCall =>
    have hargs : (args.drop 3).map s.env = (args.drop 3).map s'.env := by
      refine h.env.map fun x hx => hu x ?_
      simp only [Insn.uses, List.mem_append]
      refine .inr (List.mem_of_mem_drop (i := 1) ?_)
      rwa [List.drop_drop]
    simp only [execInsn, hcall rfl, ← hargs, ← h.mem, ← h.io]
    split
    · exact .stuck
    · exact .exit (hE _ _)
    · exact .next { env := h.env, zero := h.zero, mem := rfl, io := rfl, cur := h.cur, prev := h.prev }
    · exact .next (h.bind hz _ _ _)
  case load =>
    have h3 : 3 ≤ args.length := by simpa [Insn.arity] using ha
    have hp : args.getD 2 0 ∉ iface := by
      refine hif _ ?_
      rcases args with _ | ⟨t, _ | ⟨r, _ | ⟨p, rest⟩⟩⟩
      · simp at h3
      · simp at h3
      · simp at h3
      · simp [Insn.uses]
    simp only [execInsn, Insn.arg, List.contains_nil, Bool.false_eq_true, if_false,
      List.contains_iff_mem, hp]
    exact hord
  case store =>
    have h2 : 2 ≤ args.length := by simpa [Insn.arity] using ha
    have hp : args.getD 0 0 ∉ iface := by
      refine hif _ ?_
      rcases args with _ | ⟨p, _ | ⟨v, rest⟩⟩
      · simp at h2
      · simp at h2
      · simp [Insn.uses]
    simp only [execInsn, Insn.arg, List.contains_nil, Bool.false_eq_true, if_false,
      List.contains_iff_mem, hp]
    exact hord
  all_goals exact hord

/-- What an instruction needs for its rewriting to do the same. -/
structure Faithful (g : Grammar) (m : Module) (c : EmitCtx) (D : Nat → Prop) (iface : List Nat)
    (call call' : Nat → List V → Mem → (Nat → V) → Option (Exit V Mem)) (i : Insn) : Prop where
  mem : i ∈ m.code
  inBlock : i.op.inBlock = true
  arity : i.arity = true
  element : m.isRecordedCast i = true → m.CastsToElement g i
  uses : ∀ x ∈ m.keptUses g i, ¬ D x ∧ x ∉ iface
  dead : m.dropsCast i = true → D (i.arg 1)
  zero : i.result g ≠ some c.ids.uintZeroId
  callee : i.op = .functionCall → call' (i.arg 2) = call (i.arg 2)

theorem keptUses_kept (hs : isSpecBitcast i = false) (hd : drops false i = false)
    (hc : m.dropsCast i = false) : m.keptUses g i = i.uses g := by
  simp [Module.keptUses, hs, hd, hc]

/-- Rewriting an instruction keeps what it does. -/
theorem exec_rewriteInsn (hc : c.For g m f) (hlaw : I.Lawful g m)
    (hi : Faithful g m c D iface call call' i) (h : StateRel c I D s s')
    (hE : ∀ mem io, E (.ended mem io) (.ended mem io))
    (hret : i.op = .ret ∨ i.op = .returnValue → ∀ e, E e e) :
    Step.Rel (StateRel c I D) (StateRel c I D) E (execInsn g I call [] i s)
      (runInsns (execInsn g I call' iface) (c.rewriteInsn i) s') := by
  generalize hl : c.rewriteInsn i = l
  have hr := rewritten hc hi.arity
  rw [hl] at hr
  cases hr with
  | undef hs => exact absurd (isSpecBitcast_op hs).1 (Op.inBlock_ne hi.inBlock rfl)
  | dead hd =>
    have hrec := (Module.dropsCast_recorded hd).1
    have hop := (Module.isRecordedCast_op hrec).1
    obtain ⟨v, hv⟩ := hlaw.pureCast i hop s.prev ((i.uses g).map s.env) s.mem
    have hexec : execInsn g I call [] i s =
        .next { s with env := Function.update s.env (i.arg 1) v } := by
      simp [execInsn, hop, execOrdinary, Op.isTerminator, Op.code, hv,
        result_cast hi.arity hrec, bindResult]
    rw [hexec]
    exact .next { h with env := h.env.updateLeft (hi.dead hd) v }
  | chain hrec hd =>
    have hop := (Module.isRecordedCast_op hrec).1
    have h3 : i.args.length = 3 := by simpa [Insn.arity, hop] using hi.arity
    obtain ⟨t, r, x, hargs⟩ := List.length_eq_three.mp h3
    have hku : m.keptUses g i = i.uses g :=
      keptUses_kept (by simp [isSpecBitcast, hop]) (by simp [drops, hop]) hd
    have huses : i.uses g = [t, x] := by simp [Insn.uses, hop, hargs]
    have ht : s.env t = s'.env t := h.env t (hi.uses t (by simp [hku, huses])).1
    have hx : s.env x = s'.env x := h.env x (hi.uses x (by simp [hku, huses])).1
    have hcast := hlaw.cast i hi.mem hop (hi.element hrec) s.prev c.ids.uintZeroId (s.env t)
      (s.env x) s.mem
    rw [runInsns_single]
    have h1 : execInsn g I call [] i s = execOrdinary g I i s := by simp [execInsn, hop]
    have h2 : execInsn g I call' iface (c.asAccessChain i) s' =
        execOrdinary g I (c.asAccessChain i) s' := by simp [execInsn, EmitCtx.asAccessChain]
    rw [h1, h2]
    refine execOrdinary_rel h hE ?_ ?_ hi.zero ?_ ?_
    · simp [EmitCtx.asAccessChain, hop, Op.isTerminator, Op.code]
    · rw [result_cast hi.arity hrec]
      rfl
    · intro hterm
      simp [hop, Op.isTerminator, Op.code] at hterm
    · simp only [EmitCtx.asAccessChain, huses, List.map_cons, List.map_nil] at hcast ⊢
      simp only [Insn.uses, Insn.arg, hargs, List.getD_cons_zero, List.getD_cons_succ,
        List.take_succ_cons, List.take_zero, List.drop_succ_cons, List.drop_zero,
        List.cons_append, List.nil_append, List.map_cons, List.map_nil] at hcast ⊢
      rw [← ht, ← hx, h.zero, ← h.prev, ← h.mem]
      exact hcast
  | dropped hd =>
    have hlife : isLifetime i = true := by
      have hb := hi.inBlock
      obtain ⟨op, args⟩ := i
      cases op <;> simp_all [drops, isLifetime, Op.inBlock]
    obtain ⟨v, hv⟩ := hlaw.lifetime i hlife s.prev ((i.uses g).map s.env) s.mem
    have hterm : i.op.isTerminator = false := by
      obtain ⟨op, args⟩ := i
      cases op <;> simp_all [isLifetime, Op.isTerminator, Op.code]
    have hexec : execInsn g I call [] i s = .next s := by
      have hord : execInsn g I call [] i s = execOrdinary g I i s := by
        obtain ⟨op, args⟩ := i
        cases op <;> simp_all [isLifetime, execInsn]
      rw [hord]
      simp [execOrdinary, hterm, hv, drops_result hd, bindResult]
    rw [hexec]
    exact .next h
  | kept hs hrc hd =>
    have hku : m.keptUses g i = i.uses g :=
      keptUses_kept hs hd (by simp [Module.dropsCast, hrc])
    rw [runInsns_single]
    exact execInsn_kept h hE hret hi.arity (fun x hx => (hi.uses x (hku ▸ hx)).1)
      (fun x hx => (hi.uses x (hku ▸ hx)).2) hi.zero hi.callee

end Instructions

end Lagfx.Spirv
