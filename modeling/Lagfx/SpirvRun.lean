import Lagfx.Spirv

/-! Runs of a SPIR-V function. Interface variables are cells of their own; every other
instruction acts on the memory through `Interp`. Fuel is spent on jumps and calls. -/
namespace Lagfx.Spirv
open Ssa
variable {V Mem : Type}

/- Meaning of the instructions. `const`: types, constants and addresses. `globalVar`: a
   module-scope variable. `eval`: an instruction of a block, with the label the block was
   entered from. `branch`: where a terminator goes on, `none` when the invocation ends.
   `member`: component `k` of a composite. -/
structure Interp (V Mem : Type) where
  const : Insn → List V → V
  globalVar : Insn → List V → Mem → V × Mem
  eval : Nat → Insn → List V → Mem → Option (V × Mem)
  branch : Insn → List V → Option Nat
  member : V → Nat → V
  zero : V
  unset : V

structure State (V Mem : Type) where
  env : Nat → V
  mem : Mem
  io : Nat → V
  cur : Nat := 0
  prev : Nat := 0

inductive Exit (V Mem : Type) where
  | returned (v : Option V) (mem : Mem) (io : Nat → V)
  | ended (mem : Mem) (io : Nat → V)

def bindResult (ρ : Nat → V) (r : Option Nat) (v : V) : Nat → V :=
  match r with
  | none => ρ
  | some r => Function.update ρ r v

variable (g : Grammar) (I : Interp V Mem)

/-- Instructions with no meaning of their own in the pass. -/
def execOrdinary (i : Insn) (st : State V Mem) : Step (State V Mem) (Exit V Mem) :=
  let vals := (i.uses g).map st.env
  if i.op.isTerminator then
    match I.branch i vals with
    | some l => .jump l st
    | none => .exit (.ended st.mem st.io)
  else
    match I.eval st.prev i vals st.mem with
    | none => .stuck
    | some (v, mem) => .next { st with env := bindResult st.env (i.result g) v, mem := mem }

/-- `call`: the outcome of a callee. `iface`: the variables of the entry point. -/
def execInsn (call : Nat → List V → Mem → (Nat → V) → Option (Exit V Mem)) (iface : List Nat)
    (i : Insn) (st : State V Mem) : Step (State V Mem) (Exit V Mem) :=
  match i.op with
  | .ret => .exit (.returned none st.mem st.io)
  | .returnValue => .exit (.returned (some (st.env (i.arg 0))) st.mem st.io)
  | .functionCall =>
    match call (i.arg 2) ((i.args.drop 3).map st.env) st.mem st.io with
    | none => .stuck
    | some (.ended mem io) => .exit (.ended mem io)
    | some (.returned none mem io) => .next { st with mem := mem, io := io }
    | some (.returned (some v) mem io) =>
      .next { st with env := bindResult st.env (i.result g) v, mem := mem, io := io }
  | .load =>
    if iface.contains (i.arg 2) then
      .next { st with env := bindResult st.env (i.result g) (st.io (i.arg 2)) }
    else execOrdinary g I i st
  | .store =>
    if iface.contains (i.arg 0) then
      .next { st with io := Function.update st.io (i.arg 0) (st.env (i.arg 1)) }
    else execOrdinary g I i st
  | _ => execOrdinary g I i st

/-- Parameters bound to the arguments. -/
def bindParams (ρ : Nat → V) (ps : List Nat) (args : List V) : Nat → V :=
  (ps.zip args).foldl (fun ρ p => Function.update ρ p.1 p.2) ρ

def Fn.blockAt (f : Fn) (l : Nat) : Option Block := f.blocks.find? (·.label == l)

/-- From the block labelled `l` of `f`. `ρ₀` binds the ids of the declarations. -/
def runFrom (m : Module) (iface : List Nat) (ρ₀ : Nat → V) :
    Nat → Fn → Nat → State V Mem → Option (Exit V Mem)
  | 0, _, _, _ => none
  | fuel+1, f, l, st =>
    match f.blockAt l with
    | none => none
    | some b =>
      let call : Nat → List V → Mem → (Nat → V) → Option (Exit V Mem) := fun id args mem io =>
        match m.fns.find? (·.id == id) with
        | none => none
        | some h =>
          match h.blocks.head? with
          | none => none
          | some first =>
            runFrom m iface ρ₀ fuel h first.label
              { env := bindParams ρ₀ h.params args, mem := mem, io := io }
      match runInsns (execInsn g I call iface) b.insns { st with cur := l, prev := st.cur } with
      | .exit e => some e
      | .jump l' st' => runFrom m iface ρ₀ fuel f l' st'
      | .next _ => none
      | .stuck => none

/-- A function called by its id. -/
def callFn (m : Module) (iface : List Nat) (ρ₀ : Nat → V) (fuel : Nat) (id : Nat)
    (args : List V) (mem : Mem) (io : Nat → V) : Option (Exit V Mem) :=
  match m.fns.find? (·.id == id) with
  | none => none
  | some h =>
    match h.blocks.head? with
    | none => none
    | some first =>
      runFrom g I m iface ρ₀ fuel h first.label
        { env := bindParams ρ₀ h.params args, mem := mem, io := io }

/-- One declaration; interface variables take no room in the memory. -/
def bindGlobal (iface : List Nat) (s : (Nat → V) × Mem) (i : Insn) : (Nat → V) × Mem :=
  match i.result g with
  | none => s
  | some r =>
    let vals := (i.uses g).map s.1
    if i.op = .var ∧ !iface.contains r then
      let p := I.globalVar i vals s.2
      (Function.update s.1 r p.1, p.2)
    else (Function.update s.1 r (I.const i vals), s.2)

def declare (iface : List Nat) (globals : List Insn) (mem : Mem) : (Nat → V) × Mem :=
  globals.foldl (bindGlobal g I iface) (fun _ => I.unset, mem)

/-- The declarations, then function `id`. -/
def runModule (m : Module) (iface : List Nat) (fuel : Nat) (id : Nat) (args : List V)
    (mem : Mem) (io : Nat → V) : Option (Exit V Mem) :=
  let s := declare g I iface m.globals mem
  callFn g I m iface s.1 fuel id args s.2 io

/-- Where a block leaves a run. -/
def outcome (next : Nat → State V Mem → Option (Exit V Mem)) :
    Step (State V Mem) (Exit V Mem) → Option (Exit V Mem)
  | .exit e => some e
  | .jump l st => next l st
  | .next _ => none
  | .stuck => none

theorem runFrom_succ (m : Module) (iface : List Nat) (ρ₀ : Nat → V) (fuel : Nat) (f : Fn) (l : Nat)
    (st : State V Mem) :
    runFrom g I m iface ρ₀ (fuel+1) f l st =
      (f.blockAt l).bind fun b => outcome (runFrom g I m iface ρ₀ fuel f)
        (runInsns (execInsn g I (callFn g I m iface ρ₀ fuel) iface) b.insns
          { st with cur := l, prev := st.cur }) := by
  rw [runFrom]
  cases f.blockAt l with
  | none => rfl
  | some b =>
    change _ = outcome _ _
    generalize ho : runInsns (execInsn g I (callFn g I m iface ρ₀ fuel) iface) b.insns
      { st with cur := l, prev := st.cur } = o
    change (match runInsns (execInsn g I (callFn g I m iface ρ₀ fuel) iface) b.insns
      { st with cur := l, prev := st.cur } with
      | .exit e => some e
      | .jump l' st' => runFrom g I m iface ρ₀ fuel f l' st'
      | .next _ => none
      | .stuck => none) = _
    rw [ho]
    cases o <;> rfl

def Exit.io : Exit V Mem → Nat → V
  | .returned _ _ io => io
  | .ended _ io => io

variable {g I}

/-- Only a terminator jumps. -/
theorem execInsn_no_jump {call : Nat → List V → Mem → (Nat → V) → Option (Exit V Mem)}
    {iface : List Nat} {i : Insn} (hi : i.op.isTerminator = false) (st : State V Mem) (l : Nat)
    (st' : State V Mem) : execInsn g I call iface i st ≠ .jump l st' := by
  have hord : execOrdinary g I i st ≠ .jump l st' := by
    simp only [execOrdinary, hi, Bool.false_eq_true, if_false]
    split <;> simp
  obtain ⟨op, args⟩ := i
  cases op
  case ret => simp [execInsn]
  case returnValue => simp [execInsn]
  case functionCall =>
    simp only [execInsn]
    split <;> simp
  case load =>
    simp only [execInsn]
    split
    · simp
    · exact hord
  case store =>
    simp only [execInsn]
    split
    · simp
    · exact hord
  all_goals exact hord

/-- With no interface variables an instruction leaves their cells alone, and the environment
but for its result. -/
theorem execInsn_frame {call : Nat → List V → Mem → (Nat → V) → Option (Exit V Mem)}
    (hcall : ∀ id args mem io e, call id args mem io = some e → e.io = io) (i : Insn)
    (st : State V Mem) :
    (execInsn g I call [] i st).All
      (fun t => t.io = st.io ∧ ∀ x, i.result g ≠ some x → t.env x = st.env x)
      (fun e => e.io = st.io) := by
  have hbind : ∀ v x, i.result g ≠ some x → bindResult st.env (i.result g) v x = st.env x := by
    intro v x hx
    cases hr : i.result g with
    | none => rfl
    | some r =>
      refine Function.update_of_ne ?_ _ _
      rintro rfl
      exact hx hr
  have hord : (execOrdinary g I i st).All
      (fun t => t.io = st.io ∧ ∀ x, i.result g ≠ some x → t.env x = st.env x)
      (fun e => e.io = st.io) := by
    simp only [execOrdinary]
    split
    · split
      · exact ⟨rfl, fun _ _ => rfl⟩
      · exact rfl
    · split
      · trivial
      · exact ⟨rfl, hbind _⟩
  obtain ⟨op, args⟩ := i
  cases op
  case ret => exact rfl
  case returnValue => exact rfl
  case functionCall =>
    simp only [execInsn]
    split
    · trivial
    · rename_i he
      exact hcall _ _ _ _ _ he
    · rename_i he
      exact ⟨hcall _ _ _ _ _ he, fun _ _ => rfl⟩
    · rename_i he
      exact ⟨hcall _ _ _ _ _ he, hbind _⟩
  all_goals exact hord

section Cells
variable {m : Module} {ρ₀ : Nat → V} {fuel : Nat} {e : Exit V Mem}

theorem callFn_io_of
    (hrun : ∀ f l st e, runFrom g I m [] ρ₀ fuel f l st = some e → e.io = st.io)
    {id : Nat} {args : List V} {mem : Mem} {io : Nat → V}
    (h : callFn g I m [] ρ₀ fuel id args mem io = some e) : e.io = io := by
  simp only [callFn] at h
  split at h
  · cases h
  · split at h
    · cases h
    · exact hrun _ _ _ _ h

/-- A run with no interface variables leaves their cells alone. -/
theorem runFrom_io {f : Fn} {l : Nat} {st : State V Mem}
    (h : runFrom g I m [] ρ₀ fuel f l st = some e) : e.io = st.io := by
  induction fuel generalizing f l st e with
  | zero => simp [runFrom] at h
  | succ fuel ih =>
    have hcall : ∀ id args mem io e, callFn g I m [] ρ₀ fuel id args mem io = some e →
        e.io = io := fun _ _ _ _ _ he => callFn_io_of (fun _ _ _ _ h => ih h) he
    rw [runFrom_succ] at h
    cases hb : f.blockAt l with
    | none =>
      rw [hb] at h
      cases h
    | some b =>
      have hstep : ∀ i ∈ b.insns, ∀ s : State V Mem, s.io = st.io →
          (execInsn g I (callFn g I m [] ρ₀ fuel) [] i s).All (fun t => t.io = st.io)
            (fun e => e.io = st.io) := by
        intro i _ s hs
        have hi := execInsn_frame (g := g) (I := I) hcall i s
        cases ho : execInsn g I (callFn g I m [] ρ₀ fuel) [] i s with
        | next t => rw [ho] at hi; exact hi.1.trans hs
        | jump l t => rw [ho] at hi; exact hi.1.trans hs
        | exit e => rw [ho] at hi; exact Eq.trans hi hs
        | stuck => trivial
      have hall := runInsns_all hstep { st with cur := l, prev := st.cur } rfl
      rw [hb, Option.bind_some] at h
      cases ho : runInsns (execInsn g I (callFn g I m [] ρ₀ fuel) []) b.insns
          { st with cur := l, prev := st.cur } with
      | exit e' =>
        rw [ho] at hall h
        cases h
        exact hall
      | jump l' st' =>
        rw [ho] at hall h
        exact (ih h).trans hall
      | next st' =>
        rw [ho] at h
        cases h
      | stuck =>
        rw [ho] at h
        cases h

theorem callFn_io {id : Nat} {args : List V} {mem : Mem} {io : Nat → V}
    (h : callFn g I m [] ρ₀ fuel id args mem io = some e) : e.io = io :=
  callFn_io_of (fun _ _ _ _ h => runFrom_io h) h

end Cells

end Lagfx.Spirv
