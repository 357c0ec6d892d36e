import Mathlib.Data.List.Perm.Subperm
import Lagfx.EntrySelection
import Lagfx.ValueNumbering
import Lagfx.Lib.DepthFirst

/-! The helper functions of a shader: planned from the call sites of the entry function, and
translated in the order of the plan. -/
namespace Lagfx
open Bits DepthFirst Relation

def maxHelperFns : Nat := 96
def maxPlanDepth : Nat := 6
def maxVisiting : Nat := 16

/-- What `lagfx_air_function_body_open` gives the planner of a function. -/
structure HelperBody where
  insts : List XlateInst
  numArgs : Nat
  localConstCount : Nat
deriving DecidableEq, Repr

/-- A body that does not open is `none`. -/
structure HelperModule where
  functions : List FnView
  numGlobalvars : Nat
  moduleValCount : Nat
  types : List XlateType
  bodies : List (Option HelperBody)
deriving DecidableEq, Repr

/-- The function that a CALL targets. -/
def HelperModule.callCalleeFnIndex (v : HelperModule) (i : XlateInst) (nextVal : Nat) :
    Option Nat :=
  if i.ops.length < 2 then none
  else
    let ccinfo := u32 (i.ops.getD 1 0)
    let hasFmf := if ccinfo.testBit 17 = true then 1 else 0
    let calleeSlot := 2+hasFmf+if ccinfo.testBit 15 = true then 1 else 0
    if i.ops.length ≤ calleeSlot then none
    else
      let calleeId := resolveRelative (u32 (i.ops.getD calleeSlot 0)) nextVal
      if calleeId < v.numGlobalvars ∨ v.functions.length ≤ calleeId-v.numGlobalvars then none
      else some (calleeId-v.numGlobalvars)

/- The planner and `emit_inst_call` read the same callees. -/
def HelperModule.callSites (v : HelperModule) (f : Nat) : List Nat :=
  match v.bodies[f]? with
  | some (some b) =>
    let instIdBase := u32 (v.moduleValCount+b.numArgs+b.localConstCount)
    (valueWalk v.types instIdBase b.insts).filterMap fun s =>
      if s.2.code = .call then v.callCalleeFnIndex s.2 s.1 else none
  | _ => []

/-- A call to it is never an OpFunctionCall. -/
def FnView.intrinsic (f : FnView) : Bool :=
  match f.name with
  | none => true
  | some nm => decide (cstr "air." <+: nm ∨ cstr "llvm." <+: nm)

/-- A body that the planner takes up. -/
def FnView.helperBody (f : FnView) : Bool :=
  !f.isProto && decide (f.bodyOffset ≠ 0) && !f.intrinsic &&
    !decide (∃ nm ∈ f.name, cstr "_GLOBAL__sub_I" <:+: nm)

def HelperModule.helper (v : HelperModule) (entry g : Nat) : Bool :=
  match v.functions[g]? with
  | none => false
  | some f => decide (g ≠ entry) && f.helperBody

def helpersRegister (h : List Nat) (g : Nat) : List Nat :=
  if maxHelperFns ≤ h.length then h else if g ∈ h then h else h++[g]

/-- `helpers_plan_scan`, with `helpers_plan_fn` for each callee; `left` counts how often
`depth < 6` still holds. -/
def HelperModule.planScan (v : HelperModule) (entry : Nat) :
    Nat → List Nat → List Nat → List Nat → List Nat
  | 0, _, _, h => h
  | left+1, visiting, sites, h =>
    sites.foldl (fun h g =>
      if v.helper entry g = true ∧ g ∉ h ∧ g ∉ visiting then
        helpersRegister
          (if visiting.length < maxVisiting then
            v.planScan entry left (g :: visiting) (v.callSites g) h
          else h) g
      else h) h

/-- The registry, in the order of the registrations. -/
def HelperModule.plan (v : HelperModule) (entry : Nat) : List Nat :=
  v.planScan entry maxPlanDepth [] (v.callSites entry) []

/-- What the rest of the translator decides: whether a function gets a `func_id`, whether its
body translates, and whether the arguments at a call site fit the parameters. -/
structure HelperEnv where
  signatureOk : Nat → Bool
  translates : Nat → Bool
  lowers : Nat → Nat → Bool

/-- A function of the module that is emitted: at each of its call sites the callee, and whether
the call is an OpFunctionCall. -/
structure EmittedFn where
  fn : Nat
  calls : List (Nat × Bool)
deriving DecidableEq, Repr

/-- `emit_helper_fncall` at the call sites of `f`, with the functions `out` emitted so far. -/
def HelperModule.emitCalls (v : HelperModule) (env : HelperEnv) (h : List Nat)
    (out : List EmittedFn) (f : Nat) : List (Nat × Bool) :=
  (v.callSites f).zipIdx.map fun s =>
    (s.1, !(v.functions[s.1]?.all FnView.intrinsic) && decide (s.1 ∈ h) && env.signatureOk s.1 &&
      decide (s.1 ∈ out.map EmittedFn.fn) && env.lowers f s.2)

/-- `translate_one_helper`; a body that fails is rewound. -/
def HelperModule.translateOneHelper (v : HelperModule) (env : HelperEnv) (h : List Nat)
    (out : List EmittedFn) (f : Nat) : List EmittedFn :=
  if env.signatureOk f = true ∧ f ∉ out.map EmittedFn.fn then
    if env.translates f = true then out++[⟨f, v.emitCalls env h out f⟩] else out
  else out

/-- The functions section: the helpers by slot, and the entry function last. -/
def HelperModule.functionsSection (v : HelperModule) (env : HelperEnv) (entry : Nat) :
    List EmittedFn :=
  let h := v.plan entry
  let out := h.foldl (v.translateOneHelper env h) []
  out++[⟨entry, v.emitCalls env h out entry⟩]

/- What is asked of it. -/

/-- At most 96 helpers, each with a signature and a body that translate. -/
structure HelperModule.Supported (v : HelperModule) (env : HelperEnv) (entry : Nat) : Prop where
  few : ((List.range v.functions.length).filter (v.helper entry)).length ≤ maxHelperFns
  signatures : ∀ g, v.helper entry g = true → env.signatureOk g = true
  bodies : ∀ g, v.helper entry g = true → env.translates g = true

/-- `g` is a helper that `f` calls. -/
def HelperModule.Calls (v : HelperModule) (entry : Nat) : Nat → Nat → Prop :=
  Edge (v.helper entry) v.callSites

/-- Calls go backwards; and where no helper calls itself in the end, each one reachable is
registered once and behind those it calls, and no call with arguments that fit is lost. -/
structure HelpersPlanned (v : HelperModule) (env : HelperEnv) (entry : Nat) : Prop where
  backward : ∀ before e after, v.functionsSection env entry = before++e :: after →
    ∀ c ∈ e.calls, c.2 = true → ∃ e' ∈ before, e'.fn = c.1
  registered : Acyclic (v.helper entry) v.callSites →
    ∀ g, TransGen (v.Calls entry) entry g → (v.plan entry).count g = 1
  order : Acyclic (v.helper entry) v.callSites →
    ∀ before f after, v.plan entry = before++f :: after → ∀ g, v.Calls entry f g → g ∈ before
  called : Acyclic (v.helper entry) v.callSites → ∀ e ∈ v.functionsSection env entry,
    ∀ (k g : Nat), (v.callSites e.fn)[k]? = some g → v.helper entry g = true →
      env.lowers e.fn k = true → e.calls[k]? = some (g, true)

/- The registry is filled by a depth-first search. -/

variable {v : HelperModule} {env : HelperEnv} {entry : Nat}

theorem HelperModule.helper_lt {g : Nat} (h : v.helper entry g = true) :
    g < v.functions.length := by
  by_contra hno
  rw [HelperModule.helper, List.getElem?_eq_none (not_lt.1 hno)] at h
  cases h

/-- Helpers, each of them once. -/
structure HelperModule.Registry (v : HelperModule) (entry : Nat) (h : List Nat) : Prop where
  nodup : h.Nodup
  helpers : ∀ g ∈ h, v.helper entry g = true

theorem HelperModule.Registry.snoc {h : List Nat} (hr : v.Registry entry h) {g : Nat}
    (hg : v.helper entry g = true) (hno : g ∉ h) : v.Registry entry (h++[g]) where
  nodup := List.Nodup.append hr.nodup (List.nodup_singleton g) (by simpa using hno)
  helpers := by
    intro x hx
    obtain hx | hx := List.mem_append.1 hx
    · exact hr.helpers x hx
    · rw [List.mem_singleton.1 hx]
      exact hg

theorem HelperModule.Registry.length_le {h : List Nat} (hr : v.Registry entry h) :
    h.length ≤ ((List.range v.functions.length).filter (v.helper entry)).length := by
  refine (List.subperm_of_subset hr.nodup fun g hg => ?_).length_le
  have hhelper := hr.helpers g hg
  exact List.mem_filter.2 ⟨List.mem_range.2 (helper_lt hhelper), hhelper⟩

/-- There is a slot for every helper. -/
theorem HelperModule.Registry.register {h : List Nat} (hr : v.Registry entry h)
    (hs : v.Supported env entry) {g : Nat} (hg : v.helper entry g = true) :
    helpersRegister h g = listed h g := by
  rw [helpersRegister, listed]
  split_ifs with hfull hmem hmem
  · rfl
  · have hlen := (hr.snoc hg hmem).length_le.trans hs.few
    rw [List.length_append, List.length_singleton] at hlen
    omega
  · rfl
  · rfl

theorem HelperModule.search_registry (left : Nat) {visiting sites h : List Nat}
    (hr : v.Registry entry h) :
    v.Registry entry (search (v.helper entry) v.callSites left visiting sites h) :=
  search_inv (fun _ _ hi hg hno => hi.snoc hg hno) left visiting sites h hr

/-- Neither the slots nor the stack of visited functions run out. -/
theorem HelperModule.planScan_eq (hs : v.Supported env entry) (left : Nat) :
    ∀ visiting sites h : List Nat, visiting.length+left ≤ maxVisiting → v.Registry entry h →
      v.planScan entry left visiting sites h =
        search (v.helper entry) v.callSites left visiting sites h := by
  induction left with
  | zero => exact fun _ _ _ _ _ => rfl
  | succ left ih =>
    intro visiting sites
    induction sites with
    | nil => exact fun _ _ _ => rfl
    | cons g sites ihs =>
      intro h hroom hr
      have hsite : (if v.helper entry g = true ∧ g ∉ h ∧ g ∉ visiting then
            helpersRegister (if visiting.length < maxVisiting then
              v.planScan entry left (g :: visiting) (v.callSites g) h else h) g
          else h) =
          visit (v.helper entry) v.callSites (search (v.helper entry) v.callSites left) visiting
            h g := by
        rw [visit]
        split_ifs with hg hvisiting
        · rw [ih _ _ _ (by rw [List.length_cons]; omega) hr,
            (search_registry left hr).register hs hg.1]
        · omega
        · rfl
      have hnext : v.Registry entry
          (search (v.helper entry) v.callSites (left+1) visiting [g] h) :=
        search_registry (left+1) hr
      exact (congrArg _ hsite).trans (ihs _ hroom hnext)

theorem HelperModule.plan_eq (hs : v.Supported env entry) : v.plan entry =
    search (v.helper entry) v.callSites maxPlanDepth [] (v.callSites entry) [] :=
  planScan_eq hs _ _ _ _ (by decide) ⟨List.nodup_nil, fun g hg => absurd hg List.not_mem_nil⟩

theorem HelperModule.plan_registry (hs : v.Supported env entry) :
    v.Registry entry (v.plan entry) := by
  rw [plan_eq hs]
  exact search_registry _ ⟨List.nodup_nil, fun g hg => absurd hg List.not_mem_nil⟩

/- The functions are emitted by slot. -/

/-- Each function is emitted with those before it at hand. -/
def HelperModule.Emits (v : HelperModule) (env : HelperEnv) (h : List Nat)
    (out : List EmittedFn) : Prop :=
  ∀ before e after, out = before++e :: after → e.calls = v.emitCalls env h before e.fn

theorem HelperModule.Emits.snoc {h : List Nat} {out : List EmittedFn} (he : v.Emits env h out)
    (f : Nat) : v.Emits env h (out++[⟨f, v.emitCalls env h out f⟩]) := by
  intro before e after hout
  obtain rfl | ⟨after', x, rfl⟩ := after.eq_nil_or_concat
  · obtain ⟨rfl, hlast⟩ := List.append_inj' hout rfl
    cases hlast
    rfl
  · rw [List.concat_eq_append, ← List.cons_append, ← List.append_assoc] at hout
    obtain ⟨rfl, -⟩ := List.append_inj' hout rfl
    exact he before e after' rfl

theorem HelperModule.translate_emits (h : List Nat) (fs : List Nat) : ∀ out,
    v.Emits env h out → v.Emits env h (fs.foldl (v.translateOneHelper env h) out) := by
  induction fs with
  | nil => exact fun _ he => he
  | cons f fs ih =>
    intro out he
    apply ih
    rw [translateOneHelper]
    split_ifs
    · exact he.snoc f
    · exact he
    · exact he

theorem HelperModule.section_emits : v.Emits env (v.plan entry) (v.functionsSection env entry) := by
  apply Emits.snoc
  apply translate_emits
  intro before e after hout
  have hlen := congrArg List.length hout
  simp at hlen

/-- Where all are supported, each slot is emitted. -/
theorem HelperModule.translate_fns (hs : v.Supported env entry) (h : List Nat) (fs : List Nat) :
    ∀ out : List EmittedFn, (∀ g ∈ fs, v.helper entry g = true) →
      (out.map EmittedFn.fn++fs).Nodup →
      (fs.foldl (v.translateOneHelper env h) out).map EmittedFn.fn = out.map EmittedFn.fn++fs := by
  induction fs with
  | nil => exact fun out _ _ => (List.append_nil _).symm
  | cons f fs ih =>
    intro out hhelpers hnodup
    have hf := hhelpers f List.mem_cons_self
    have hno : f ∉ out.map EmittedFn.fn := fun hmem =>
      (List.nodup_append.1 hnodup).2.2 f hmem f List.mem_cons_self rfl
    let e : EmittedFn := ⟨f, v.emitCalls env h out f⟩
    have hout : v.translateOneHelper env h out f = out++[e] := by
      rw [translateOneHelper, if_pos ⟨hs.signatures f hf, hno⟩, if_pos (hs.bodies f hf)]
    have hmap : (out++[e]).map EmittedFn.fn = out.map EmittedFn.fn++[f] := by
      rw [List.map_append, List.map_singleton]
    rw [List.foldl_cons, hout, ih _ (fun g hg => hhelpers g (List.mem_cons_of_mem _ hg)), hmap,
      List.append_assoc, List.singleton_append]
    rw [hmap, List.append_assoc]
    exact hnodup

theorem HelperModule.section_fns (hs : v.Supported env entry) :
    (v.functionsSection env entry).map EmittedFn.fn = v.plan entry++[entry] := by
  have hr := plan_registry hs
  have hfns := translate_fns hs (v.plan entry) (v.plan entry) [] hr.helpers hr.nodup
  rw [functionsSection, List.map_append, hfns]
  rfl

theorem HelperModule.emitCalls_get {h : List Nat} {out : List EmittedFn} {f k g : Nat}
    (hsite : (v.callSites f)[k]? = some g) : (v.emitCalls env h out f)[k]? = some (g,
      !(v.functions[g]?.all FnView.intrinsic) && decide (g ∈ h) && env.signatureOk g &&
        decide (g ∈ out.map EmittedFn.fn) && env.lowers f k) := by
  rw [emitCalls, List.getElem?_map, List.getElem?_zipIdx, hsite, Nat.zero_add]
  rfl

theorem HelperModule.section_backward {before after : List EmittedFn} {e : EmittedFn}
    (h : v.functionsSection env entry = before++e :: after) {c : Nat × Bool} (hc : c ∈ e.calls)
    (hcall : c.2 = true) : ∃ e' ∈ before, e'.fn = c.1 := by
  rw [section_emits before e after h, emitCalls] at hc
  obtain ⟨s, -, rfl⟩ := List.mem_map.1 hc
  simp only [Bool.and_eq_true, decide_eq_true_eq] at hcall
  exact List.mem_map.1 hcall.1.2

theorem HelperModule.helper_callable {g : Nat} (h : v.helper entry g = true) :
    (!(v.functions[g]?.all FnView.intrinsic)) = true := by
  rw [helper] at h
  cases hf : v.functions[g]? with
  | none =>
    rw [hf] at h
    cases h
  | some f =>
    rw [hf] at h
    simp only [FnView.helperBody, Bool.and_eq_true] at h
    exact h.2.1.2

/-- A helper that is emitted before is called. -/
theorem HelperModule.section_called (hs : v.Supported env entry)
    (horder : ∀ before f after, v.plan entry = before++f :: after →
      ∀ g, v.Calls entry f g → g ∈ before)
    (hentry : ∀ g, v.Calls entry entry g → g ∈ v.plan entry) {e : EmittedFn}
    (he : e ∈ v.functionsSection env entry) {k g : Nat}
    (hsite : (v.callSites e.fn)[k]? = some g) (hg : v.helper entry g = true)
    (hlowers : env.lowers e.fn k = true) : e.calls[k]? = some (g, true) := by
  obtain ⟨before, after, hsplit⟩ := List.append_of_mem he
  have hfns := section_fns hs
  rw [hsplit, List.map_append, List.map_cons] at hfns
  have hcall : v.Calls entry e.fn g := ⟨List.mem_of_getElem? hsite, hg⟩
  have hbefore : g ∈ before.map EmittedFn.fn ∧ g ∈ v.plan entry := by
    obtain hnil | ⟨after', x, hlast⟩ := (after.map EmittedFn.fn).eq_nil_or_concat
    · rw [hnil] at hfns
      obtain ⟨hplan, hlast⟩ := List.append_inj' hfns rfl
      cases hlast
      rw [hplan]
      exact ⟨hentry g hcall, hentry g hcall⟩
    · rw [hlast, List.concat_eq_append, ← List.cons_append, ← List.append_assoc] at hfns
      obtain ⟨hplan, -⟩ := List.append_inj' hfns rfl
      have hin := horder _ _ _ hplan.symm g hcall
      exact ⟨hin, hplan ▸ List.mem_append_left _ hin⟩
  rw [section_emits before e after hsplit, emitCalls_get hsite, helper_callable hg,
    hs.signatures g hg, hlowers, decide_eq_true hbefore.1, decide_eq_true hbefore.2]
  rfl

/-- Where no helper calls itself in the end: every call path of seven helpers has a path to its
last one that turns off at an earlier call site. -/
theorem helpers_planned_iff (v : HelperModule) (env : HelperEnv) (entry : Nat)
    (hs : v.Supported env entry) :
    HelpersPlanned v env entry ↔ (Acyclic (v.helper entry) v.callSites →
      FoundWithin (v.helper entry) v.callSites entry maxPlanDepth []) := by
  have hplan := HelperModule.plan_eq hs
  have hr := HelperModule.plan_registry hs
  constructor
  · intro h hac
    rw [← search_iff hac, ← hplan]
    refine ⟨h.order hac, fun g hg => List.count_pos_iff.1 ?_⟩
    rw [h.registered hac g hg]
    decide
  · intro h
    have hfound := fun hac => (search_iff hac entry maxPlanDepth).2 (h hac)
    rw [← hplan] at hfound
    refine ⟨fun before e after hsplit c hc => HelperModule.section_backward hsplit hc,
      fun hac g hg => List.count_eq_one_of_mem hr.nodup ((hfound hac).2 g hg),
      fun hac => (hfound hac).1, fun hac e he k g hsite hg hlowers => ?_⟩
    exact HelperModule.section_called hs (hfound hac).1
      (fun g hg => (hfound hac).2 g (.single hg)) he hsite hg hlowers

/- Functions that call the next one, with `n` helpers behind the entry function. -/
def chainModule (n : Nat) : HelperModule where
  functions := List.replicate (n+1) ⟨some (cstr "f"), false, 8⟩
  numGlobalvars := 0
  moduleValCount := n+1
  types := [⟨.void, []⟩, ⟨.function, [0, 0]⟩]
  bodies := (List.range (n+1)).map fun f =>
    some ⟨if f < n then [⟨.call, 34, [0, 2^15, 1, n-f]⟩] else [], 0, 0⟩

def plainEnv : HelperEnv := ⟨fun _ => true, fun _ => true, fun _ _ => true⟩

/-- Where calls go upwards, a path climbs by its length. -/
theorem HelperModule.follow_up (hup : ∀ f g, g ∈ v.callSites f → f < g) (s : List Nat) :
    ∀ f g : Nat, follow (v.helper entry) v.callSites f s = some g → f+s.length ≤ g := by
  induction s with
  | nil => exact fun f g h => le_of_eq (Option.some.inj h)
  | cons i s ih =>
    intro f g h
    obtain ⟨e, he, -, hs⟩ := follow_edge h
    have hlt := hup f e (List.mem_of_getElem? he)
    have hle := ih e g hs
    rw [List.length_cons]
    omega

theorem chainModule_up {n : Nat} (h : ∀ f < n+1, ∀ g ∈ (chainModule n).callSites f, f < g)
    (f g : Nat) (hg : g ∈ (chainModule n).callSites f) : f < g := by
  by_cases hf : f < n+1
  · exact h f hf g hg
  · have hnone : (chainModule n).bodies[f]? = none := List.getElem?_eq_none (by
      simp only [chainModule, List.length_map, List.length_range]
      omega)
    rw [HelperModule.callSites, hnone] at hg
    exact absurd hg List.not_mem_nil

/-- Six helpers are within the depth. -/
theorem chain_planned : HelpersPlanned (chainModule 6) plainEnv 0 := by
  apply (helpers_planned_iff (chainModule 6) plainEnv 0
    ⟨by decide, fun _ _ => rfl, fun _ _ => rfl⟩).2
  intro _ s g hlen hs
  have hle := HelperModule.follow_up (chainModule_up (by decide)) s 0 g hs
  cases s with
  | nil => cases hlen
  | cons i s =>
    have hlast : (chainModule 6).helper 0 g = true := by
      obtain ⟨f, -, hedge⟩ := TransGen.tail'_iff.1 (follow_transGen s hs)
      exact hedge.2
    have hlt := HelperModule.helper_lt hlast
    have hfns : (chainModule 6).functions.length = 7 := rfl
    have hseven : ([]++i :: s).length = 7 := hlen
    rw [List.nil_append] at hseven
    omega

/-- A seventh helper is not registered, and its call is lost. -/
theorem chain_lost : (chainModule 7).plan 0 = [6, 5, 4, 3, 2, 1] ∧
    ⟨6, [(7, false)]⟩ ∈ (chainModule 7).functionsSection plainEnv 0 ∧
    ¬ HelpersPlanned (chainModule 7) plainEnv 0 := by
  have hup := chainModule_up (n := 7) (by decide)
  have hac : Acyclic ((chainModule 7).helper 0) (chainModule 7).callSites := by
    intro g hg
    obtain ⟨i, s, hs⟩ := transGen_follow hg
    have hle := HelperModule.follow_up hup (i :: s) g g hs
    rw [List.length_cons] at hle
    omega
  refine ⟨by decide, by decide, fun h => ?_⟩
  have hcall := h.called hac ⟨6, [(7, false)]⟩ (by decide) 0 7 (by decide) (by decide) rfl
  exact absurd hcall (by decide)

end Lagfx
