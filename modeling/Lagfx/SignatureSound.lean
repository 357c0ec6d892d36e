import Lagfx.SignatureEntry

/-! The signature transform makes of a value-returning function an entry point that does
the same: what it keeps, the ids it leaves, and the runs. -/
namespace Lagfx.Spirv
open Ssa
variable {g : Grammar} {m : Module} {f : Fn} {c : EmitCtx}

/-- Variables of storage class `storage`, one for each of `types`. -/
structure Module.Declares (m : Module) (storage : Nat) (types vars : List Nat) : Prop where
  length : vars.length = types.length
  typed : ∀ (k t x : Nat), types[k]? = some t → vars[k]? = some x → ∃ p,
    ⟨.typePointer, [p, storage, t]⟩ ∈ m.globals ∧ ⟨.var, [p, x, storage]⟩ ∈ m.globals

/-- `m'` has an entry point for `f`: an Output variable for each member of what `f` returns
in `m`, an Input variable for each parameter. -/
structure Interface (m m' : Module) (f : Fn) (entry : List Nat) (stage : SpvStage)
    (outs ins : List Nat) : Prop where
  entryPoint : ⟨.entryPoint, stage.code :: f.id :: packString entry ++ (outs ++ ins)⟩ ∈ m'.globals
  outputs : m'.Declares 3 (m.memberTypes f) outs
  inputs : m'.Declares 1 f.paramTypes ins
  distinct : (outs ++ ins).Nodup

/-- With argument `k` in Input variable `k`, the entry point of `m'` leaves as `f` does in
`m`, with member `j` of the value in Output variable `j`. -/
def RunsAs {V Mem : Type} (g : Grammar) (I : Interp V Mem) (m m' : Module) (f : Fn)
    (outs ins : List Nat) : Prop :=
  ∀ fuel args mem io, args.length = f.params.length →
    (∀ (k x : Nat), ins[k]? = some x → args[k]? = some (io x)) →
    Option.Rel (EntryExit outs (m.part I f)) (runModule g I m [] fuel f.id args mem io)
      (runModule g I m' (outs ++ ins) fuel f.id [] mem io)

/-- `m'` is an equivalent shader for `f`. -/
structure Transformed (g : Grammar) (m m' : Module) (f : Fn) (entry : List Nat)
    (stage : SpvStage) : Prop where
  ids : m'.ValidIds g
  kept : (m.unlisted f).Sublist m'.code
  runs : ∃ outs ins, Interface m m' f entry stage outs ins ∧
    ∀ (V Mem : Type) (I : Interp V Mem), I.Lawful g m → RunsAs g I m m' f outs ins

section Interface

theorem declares_interfaceVar {k : Nat} {ps : List (Nat × Nat)} {ts : List Nat}
    (hlen : ps.length = ts.length)
    (h : ∀ i ∈ (ps.zip ts).flatMap (interfaceVar k), i ∈ m.globals) :
    m.Declares k ts (ps.map (·.2)) where
  length := by simpa using hlen
  typed j t x ht hx := by
    rw [List.getElem?_map, Option.map_eq_some_iff] at hx
    obtain ⟨p, hp, rfl⟩ := hx
    have hz : (p, t) ∈ ps.zip ts :=
      List.mem_of_getElem? (List.getElem?_zip_eq_some.mpr ⟨hp, ht⟩)
    have hmem := fun i hi => h i (List.mem_flatMap.mpr ⟨(p, t), hz, hi⟩)
    exact ⟨p.1, hmem _ (by simp [interfaceVar]), hmem _ (by simp [interfaceVar])⟩

theorem zoneA_mem {is : List Insn} (hg : ∀ i ∈ is, i.op.inGlobals = true)
    (hmodel : is.any (·.op == .memoryModel) = true) (t : Bool) (n : Nat) {i : Insn}
    (hi : i ∈ c.zoneA) : i ∈ (emitAll c ⟨false, t, false, false, false, n⟩ is).2 := by
  induction is generalizing t with
  | nil => simp at hmodel
  | cons j is ih =>
    simp only [emitAll, emitInsn_global (hg j List.mem_cons_self), List.mem_append]
    by_cases hj : j.op = .memoryModel
    · left
      right
      simpa [hj] using hi
    · right
      have hfalse : (j.op == .memoryModel) = false := by simpa using hj
      rw [List.any_cons, hfalse, Bool.false_or] at hmodel
      rw [hfalse]
      exact ih (fun k hk => hg k (List.mem_cons_of_mem j hk)) hmodel _

theorem iface_nodup (hc : c.For g m f) : c.iface.Nodup := by
  have hins : c.inVars = (List.range c.scan.paramTypes.length).map fun k =>
      afterReuse c.scan.voidId c.scan.bound+1+2*c.scan.retMemberTypes.length+2*k+1 := by
    simp [EmitCtx.inVars, hc.ids, planSynthIds, freshPairs]
  have houts : c.outVars = (List.range c.scan.retMemberTypes.length).map
      fun k => afterReuse c.scan.voidId c.scan.bound+1+2*k+1 := by
    simp [EmitCtx.outVars, hc.ids, planSynthIds, freshPairs]
  refine List.nodup_append.mpr ⟨outVars_nodup hc, ?_, ?_⟩
  · rw [hins]
    exact List.nodup_range.map fun a b h => by simpa using h
  · intro x hx y hy
    rw [houts, List.mem_map] at hx
    rw [hins, List.mem_map] at hy
    obtain ⟨a, ha, rfl⟩ := hx
    obtain ⟨b, hb, rfl⟩ := hy
    rw [List.mem_range] at ha hb
    omega

theorem rewritten_interface (hm : m.Kernel g) (hc : c.For g m f) :
    Interface m (c.rewriteModule c.planned m f) f c.entry c.stage c.outVars c.inVars where
  entryPoint := by
    refine List.mem_append_left _ (zoneA_mem hm.globals hm.any_memoryModel _ _ ?_)
    simp [EmitCtx.zoneA, EmitCtx.entryPoint, hc.fnId]
  outputs := by
    rw [memberTypes_eq hm hc]
    refine declares_interfaceVar (by simp [hc.ids, planSynthIds, freshPairs_length]) fun i hi => ?_
    refine List.mem_append_right _ (List.mem_append_left _ (List.mem_append_right _ hi))
  inputs := by
    rw [← hc.scan.params]
    refine declares_interfaceVar (by simp [hc.ids, planSynthIds, freshPairs_length]) fun i hi => ?_
    exact List.mem_append_right _ (List.mem_append_right _ hi)
  distinct := iface_nodup hc

end Interface

section Runs
variable {V Mem : Type} {I : Interp V Mem}

theorem bindParams_get {ps : List Nat} (hnd : ps.Nodup) {ρ : Nat → V} {args : List V} {p : Nat}
    {v : V} (h : (p, v) ∈ ps.zip args) : bindParams ρ ps args p = v := by
  induction ps generalizing args ρ with
  | nil => simp at h
  | cons q ps ih =>
    rw [List.nodup_cons] at hnd
    cases args with
    | nil => simp at h
    | cons a args =>
      rw [List.zip_cons_cons, List.mem_cons] at h
      have hcons : bindParams ρ (q :: ps) (a :: args) =
          bindParams (Function.update ρ q a) ps args := rfl
      rw [hcons]
      cases h with
      | inl h =>
        cases h
        rw [bindParams_ne hnd.1, Function.update_self]
      | inr h => exact ih hnd.2 h

/-- The module's entry runs as before. -/
theorem runModule_entry (hm : m.Kernel g) (hc : c.For g m f) (hent : m.EntryFn f)
    (hst : m.Steady g f) (hload : m.LoadsFirst f) (hlaw : I.Lawful g m) :
    RunsAs g I m (c.rewriteModule c.planned m f) f c.outVars c.inVars := by
  intro fuel args mem io hlen hargs
  obtain ⟨b, bs, hbs⟩ := List.exists_cons_of_ne_nil hent.body
  have hdecl := declare_rel hm hc hent.mem hlaw hst mem
  have hzero := declare_zero hm hc hent.mem hlaw hst mem
  have hfind : m.fns.find? (·.id == f.id) = some f := by
    cases hfn : m.fns.find? (·.id == f.id) with
    | none => exact absurd (List.find?_eq_none.mp hfn f hent.mem) (by simp)
    | some h =>
      have hid : h.id = f.id := by simpa using List.find?_some hfn
      rw [hm.ids.fn_unique hent.mem (List.mem_of_find?_eq_some hfn) hid]
  have hfind' : (c.rewriteModule c.planned m f).fns.find? (·.id == f.id) =
      some (c.rewriteEntry c.planned f) := by
    have h := find_rewriteFns (m := m) (c := c) c.planned f.id
    rw [hfind, Option.map_some, if_pos hc.fnId.symm] at h
    exact h
  have hhead : (c.rewriteEntry c.planned f).blocks.head? =
      some (c.rewriteFirst c.planned (if f.headerLines.isEmpty then c.loads else []) b) := by
    rw [EmitCtx.rewriteEntry, hbs]
    rfl
  have hnd := params_nodup hm hent.mem
  have hiface : c.outVars ++ c.inVars = c.iface := rfl
  rw [hiface]
  simp only [runModule, callFn, hfind, hfind', hhead, hbs, List.head?_cons]
  refine runFrom_entry hm hc hent hst hlaw hload hdecl.env hzero hbs fuel b.label _ _ ?_ ?_
  · intro q hq
    obtain ⟨k, hk⟩ := List.mem_iff_getElem?.mp hq
    obtain ⟨hp, hx⟩ := List.getElem?_zip_eq_some.mp hk
    have hz : (f.params.zip args)[k]? = some (q.1, io q.2) :=
      List.getElem?_zip_eq_some.mpr ⟨hp, hargs k q.2 hx⟩
    exact (bindParams_get hnd (List.mem_of_getElem? hz)).symm
  · have hnone : bindParams (declare g I c.iface (c.rewriteModule c.planned m f).globals mem).1
        (c.rewriteEntry c.planned f).params ([] : List V) =
        (declare g I c.iface (c.rewriteModule c.planned m f).globals mem).1 := by
      rw [params_rewriteEntry]
      rfl
    refine { env := fun x hx => ?_, zero := ?_, mem := hdecl.mem, io := rfl, cur := rfl, prev := rfl }
    · have hp : x ∉ f.params := fun hp => hx (.inr ⟨rfl, hp⟩)
      simp only [hnone, bindParams_ne hp]
      exact hdecl.env x fun h => hx (.inl h)
    · simp only [hnone]
      exact hzero

end Runs

section Named

def namesEntry (entry : List Nat) (i : Insn) : Bool :=
  i.op == .name && decide (2 ≤ i.args.length) && strEq (bytesOf (i.args.drop 1)) entry

/-- The id that the module's last OpName with the string `entry` names. -/
def Module.entryId (m : Module) (entry : List Nat) : Option Nat :=
  ((m.code.filter (namesEntry entry)).getLast?).map (·.arg 0)

theorem scanInsn_fnId (entry : List Nat) (s : ScanState) (i : Insn) :
    (scanInsn entry s i).fnId = if namesEntry entry i then i.arg 0 else s.fnId := by
  obtain ⟨op, args⟩ := i
  cases op <;> simp only [scanInsn, namesEntry] <;> (try split_ifs) <;> simp_all

theorem foldl_fnId (entry : List Nat) (is : List Insn) (s : ScanState) :
    (is.foldl (scanInsn entry) s).fnId =
      (((is.filter (namesEntry entry)).getLast?).map (·.arg 0)).getD s.fnId := by
  induction is using List.reverseRecOn with
  | nil => rfl
  | append_singleton is i ih =>
    rw [List.foldl_append, List.foldl_cons, List.foldl_nil, scanInsn_fnId, List.filter_append]
    cases hn : namesEntry entry i with
    | true => simp [hn]
    | false => simpa [hn] using ih

theorem scanned_fnId {entry : List Nat} {s : ScanState}
    (hs : scanModule m.bound m.code entry = .ok s) (hname : m.entryId entry = some f.id) :
    f.id = s.fnId := by
  obtain ⟨fn, ps, b, ts, -, -, -, rfl⟩ := scanModule_ok hs
  have h := foldl_fnId entry m.code { bound := m.bound }
  rw [Module.entryId] at hname
  rw [hname] at h
  exact h.symm

/-- A transform that succeeds has scanned the module. -/
theorem signatureTransform_scans (hm : m.Kernel g) {h : StreamHeader} {entry words : List Nat}
    {stage : SpvStage} {mallocOk : Bool}
    (hok : signatureTransform (m.stream h) entry stage mallocOk = .ok words) :
    mallocOk = true ∧ ∃ s, scanModule m.bound m.code entry = .ok s := by
  have hdec : decodeInsns ((m.stream h).drop 5) = some m.code := by
    simp only [Module.stream, List.cons_append, List.nil_append, List.drop_succ_cons,
      List.drop_zero]
    exact decodeLoop_pack hm.stream _ le_rfl
  have hb : (m.stream h).getD 3 0 = m.bound := rfl
  simp only [signatureTransform, hdec, hb] at hok
  split_ifs at hok
  · split at hok <;> cases hok
  · rename_i hmalloc
    cases hs : scanModule m.bound m.code entry with
    | error e =>
      rw [hs] at hok
      cases hok
    | ok s => exact ⟨by simpa using hmalloc, s, rfl⟩

end Named

/-- The module the transform makes, where the scan accepts. -/
def Module.transformed (m : Module) (f : Fn) (entry : List Nat) (stage : SpvStage) : Module :=
  match scanModule m.bound m.code entry with
  | .error _ => m
  | .ok s =>
    let c := emitCtx s m.code entry stage
    c.rewriteModule c.planned m f

/-- The transform leaves an equivalent shader when no kept instruction uses an id whose
definition it drops or blanks and no parameter is cast before it is loaded; a shader in
which each use is of an id defined before it, only then. -/
theorem signature_transform_iff {entry words : List Nat} {stage : SpvStage} {mallocOk : Bool}
    {h : StreamHeader} (hm : m.Kernel g) (hent : m.EntryFn f)
    (hname : m.entryId entry = some f.id) (hstr : CString entry)
    (hok : signatureTransform (m.stream h) entry stage mallocOk = .ok words) :
    words = (m.transformed f entry stage).stream h ∧
      (m.Steady g f ∧ m.LoadsFirst f → Transformed g m (m.transformed f entry stage) f entry stage) ∧
      (Transformed g m (m.transformed f entry stage) f entry stage →
        (∀ x ∈ m.usesAfter g f, x ∉ m.lostIds f) ∧ m.LoadsFirst f) := by
  obtain ⟨rfl, s, hs⟩ := signatureTransform_scans hm hok
  have hid := scanned_fnId hs hname
  have hstream := @signatureTransform_stream g m f s entry stage hm hent.mem hent.body hs hid
    hstr.1 h
  have hc : (emitCtx s m.code entry stage).For g m f := emitCtx_for hm hent.mem hs hid
  have hbound := rewritten_bound_lt hm hc hent.mem
  have heq : m.transformed f entry stage = (emitCtx s m.code entry stage).rewriteModule
      (emitCtx s m.code entry stage).planned m f := by
    rw [Module.transformed, hs]
  rw [heq]
  have hclosed := rewritten_closed_iff hm hc hent.mem hent.body hstr.2
  have hordered := rewritten_ordered_iff hm hc hent.mem hent.body
  refine ⟨?_, fun hcond => ?_, fun ht => ?_⟩
  · rw [hok] at hstream
    simp only at hstream
    split at hstream
    · cases hstream
    · cases hstream
      congr 1
      exact congrArg (fun b => { (emitCtx s m.code entry stage).rewriteModule
        (emitCtx s m.code entry stage).planned m f with bound := b }) (Nat.mod_eq_of_lt hbound)
  · obtain ⟨hst, hload⟩ := hcond
    exact {
      ids := {
        nodup := rewritten_nodup hm hc hent.mem hent.body
        below := rewritten_below hm hc hent.mem hent.body
        closed := hclosed.mpr hst.lost
        ordered := hordered.mpr hload }
      kept := unlisted_sublist hm hc hent.mem
      runs := ⟨_, _, rewritten_interface hm hc, fun V Mem I hlaw =>
        runModule_entry hm hc hent hst hload hlaw⟩ }
  · exact ⟨hclosed.mp ht.ids.closed, hordered.mp ht.ids.ordered⟩

/-- OpCompositeConstruct, the only opcode of the shader below that has no name here. -/
def constructGrammar : Grammar where
  result code args := if code = 80 then args[1]? else none
  uses code args := if code = 80 then args.take 1 ++ args.drop 2 else []

/-- `main` keeps its parameter in an array of floats, through the pointer `cell`, and returns
what it reads back and the parameter. Id 13 is the cast that the lifetime markers take. -/
def shaderFn (cell : Nat) : Fn where
  retType := 7
  id := 9
  control := 0
  fnType := 8
  header := [⟨.functionParameter, [2, 10]⟩]
  blocks := [⟨11, [⟨.var, [5, 12, 7]⟩, ⟨.bitcast, [6, 13, 12]⟩, ⟨.bitcast, [6, 16, 12]⟩,
    ⟨.lifetimeStart, [13, 8]⟩, ⟨.store, [cell, 10]⟩, ⟨.load, [2, 14, cell]⟩,
    ⟨.other 80, [7, 15, 14, 10]⟩, ⟨.lifetimeStop, [13, 8]⟩, ⟨.returnValue, [15]⟩]⟩]

def shaderModule (cell : Nat) : Module where
  bound := 17
  globals := [⟨.capability, [6]⟩, ⟨.memoryModel, [2, 2]⟩, ⟨.name, [9, 1852399981, 0]⟩,
    ⟨.typeInt, [1, 32, 0]⟩, ⟨.typeFloat, [2, 32]⟩, ⟨.constant, [1, 3, 2]⟩, ⟨.typeArray, [4, 2, 3]⟩,
    ⟨.typePointer, [5, 7, 4]⟩, ⟨.typePointer, [6, 7, 2]⟩, ⟨.typeStruct, [7, 2, 2]⟩,
    ⟨.typeFunction, [8, 7, 2]⟩]
  fns := [shaderFn cell]

def mainName : List Nat := [109, 97, 105, 110]

def shaderHeader : StreamHeader := ⟨0x10000, 0, 0⟩

theorem shaderModule_kernel {cell : Nat} (hcell : cell = 13 ∨ cell = 16) :
    (shaderModule cell).Kernel constructGrammar := by
  have hids : (shaderModule cell).ValidIds constructGrammar := by
    obtain rfl | rfl := hcell <;>
      exact ⟨by decide, by decide, by decide, by decide⟩
  have hlaid : ∀ f ∈ (shaderModule cell).fns, f.Laid constructGrammar (shaderModule cell) := by
    intro f hf
    obtain rfl := List.mem_singleton.mp hf
    obtain rfl | rfl := hcell <;>
      exact ⟨by decide, by decide, by decide, by decide,
        by decide, by decide, by decide, by decide⟩
  obtain rfl | rfl := hcell <;>
    exact ⟨hids, by decide, by decide, hlaid, by decide, by decide,
      by decide, by decide, by decide⟩

theorem shaderFn_entry {cell : Nat} (hcell : cell = 13 ∨ cell = 16) :
    (shaderModule cell).EntryFn (shaderFn cell) := by
  obtain rfl | rfl := hcell <;>
    exact ⟨by decide, by decide, by decide, by decide⟩

theorem mainName_cstring : CString mainName := by
  refine ⟨by decide, by decide⟩

/-- A cast of its own for the lifetime markers: the shader is equivalent. -/
theorem shader_transformed :
    Transformed constructGrammar (shaderModule 16)
      ((shaderModule 16).transformed (shaderFn 16) mainName .fragment) (shaderFn 16) mainName
      .fragment := by
  have hok : signatureTransform ((shaderModule 16).stream shaderHeader) mainName .fragment true =
      .ok (((shaderModule 16).transformed (shaderFn 16) mainName .fragment).stream
        shaderHeader) := by decide +kernel
  have hsteady : (shaderModule 16).Steady constructGrammar (shaderFn 16) :=
    ⟨by decide, by decide⟩
  exact (signature_transform_iff (shaderModule_kernel (.inr rfl)) (shaderFn_entry (.inr rfl))
    (by decide) mainName_cstring hok).2.1 ⟨hsteady, by decide⟩

/-- One cast both for the lifetime markers and for the accesses: the transform succeeds and
drops it, and the store and the load use an id that nothing defines. -/
theorem lifetime_cast_lost :
    (shaderModule 13).Kernel constructGrammar ∧ (shaderModule 13).EntryFn (shaderFn 13) ∧
      (shaderModule 13).entryId mainName = some (shaderFn 13).id ∧ CString mainName ∧
      signatureTransform ((shaderModule 13).stream shaderHeader) mainName .fragment true =
        .ok (((shaderModule 13).transformed (shaderFn 13) mainName .fragment).stream
          shaderHeader) ∧
      ¬ Transformed constructGrammar (shaderModule 13)
        ((shaderModule 13).transformed (shaderFn 13) mainName .fragment) (shaderFn 13) mainName
        .fragment := by
  refine ⟨shaderModule_kernel (.inl rfl), shaderFn_entry (.inl rfl), by decide,
    mainName_cstring, by decide +kernel, fun h => ?_⟩
  have hused : ⟨.store, [13, 10]⟩ ∈
      ((shaderModule 13).transformed (shaderFn 13) mainName .fragment).code := by decide
  have hlost : 13 ∉ ((shaderModule 13).transformed (shaderFn 13) mainName .fragment).defs
      constructGrammar := by decide
  exact hlost (h.ids.closed _ hused 13 (by decide))

end Lagfx.Spirv
