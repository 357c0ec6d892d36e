import Mathlib.Data.List.Infix
import Lagfx.BitcodeReader

/-! The entry point of an AIR module: the function and the stage that `translate.c` picks, and
the resource arguments it reads from the metadata. -/
namespace Lagfx
open Bits

def cstr (s : String) : List UInt8 := s.toList.map fun c => UInt8.ofNat c.toNat

/- What `translate.c` sees of a module through its accessors. -/

structure FnView where
  name : Option (List UInt8)
  isProto : Bool
  bodyOffset : Nat
deriving DecidableEq, Repr

/-- The name is that of a named node. -/
structure MdView where
  kind : AirMdKind
  name : Option (List UInt8)
  operands : List Nat
deriving DecidableEq, Repr

structure ModuleView where
  functions : List FnView
  numGlobalvars : Nat
  constants : List AirConstant
  strings : List (List UInt8)
  metadata : List MdView
deriving DecidableEq, Repr

def Arena.cString (a : Arena) (off : Nat) : List UInt8 :=
  match a.cells off with
  | some (.bytes bs) => bs.takeWhile (· ≠ 0)
  | _ => []

/- A stale pointer reads nothing here. -/
def Arena.wordsAt (a : Arena) : Option Ptr → List Nat
  | none => []
  | some p =>
    if p.generation = a.generation then
      match a.cells p.offset with
      | some (.words ws) => ws
      | _ => []
    else []

/-- `lagfx_air_module_string`. -/
def AirModule.string (m : AirModule) (offset : Nat) : Option (List UInt8) :=
  if offset = 0 ∨ m.arena.used ≤ offset then none else some (m.arena.cString offset)

def AirModule.view (env : ReaderEnv) (m : AirModule) : ModuleView where
  functions := (List.range m.numFunctions).map fun i =>
    let f := m.loadFunction env i
    ⟨m.string f.nameOffset, f.isProto, f.bodyOffset⟩
  numGlobalvars := m.numGlobalvars
  constants := m.constants
  strings := m.metadataStringOffsets.map m.arena.cString
  metadata := m.metadata.map fun md =>
    ⟨md.kind, if md.nameOffset = 0 then none else some (m.arena.cString md.nameOffset),
      m.arena.wordsAt md.operands⟩

/-- `lagfx_air_module_named_metadata`. -/
def ModuleView.namedMetadata (v : ModuleView) (name : List UInt8) : Option MdView :=
  v.metadata.find? fun md => decide (md.kind = .namedNode ∧ md.name = some name)

/- The stage. -/

inductive TransStage where
  | unknown | vertex | fragment
deriving DecidableEq, Repr

/-- The stages that `lagfx_air2spv_translate_function` takes. -/
inductive XlateStage where
  | vertex | fragment
deriving DecidableEq, Repr

/- A kernel is not supported, like a module without any of the nodes. -/
def discoverStage (v : ModuleView) : TransStage :=
  if (v.namedMetadata (cstr "air.vertex")).isSome then .vertex
  else if (v.namedMetadata (cstr "air.fragment")).isSome then .fragment
  else .unknown

def TransStage.xlate : TransStage → Option XlateStage
  | .unknown => none
  | .vertex => some .vertex
  | .fragment => some .fragment

/- Metadata ids and value ids. -/

def ModuleView.mdRecord (v : ModuleView) (globalId : Nat) : Option MdView :=
  if globalId < v.strings.length then none else v.metadata[globalId-v.strings.length]?

def ModuleView.mdString (v : ModuleView) (globalId : Nat) : Option (List UInt8) :=
  v.strings[globalId]?

/-- `md_value_int`: a constant by its value id, and -1 for anything else. -/
def ModuleView.mdValueInt (v : ModuleView) : Option MdView → Int
  | none => -1
  | some md =>
    match md.operands with
    | _ :: valueId :: _ =>
      let base := u32 (v.numGlobalvars+v.functions.length)
      if md.kind ≠ .value ∨ valueId < base then -1
      else
        match v.constants[valueId-base]? with
        | none => -1
        | some c =>
          match c.kind with
          | .integer =>
            match c.payload with
            | .i64 i => i
            | _ => 0
          | .null => 0
          | _ => -1
    | _ => -1

/-- The operands of a NODE are ids plus one. -/
def ModuleView.nodeOp (v : ModuleView) (op : Nat) : Option MdView :=
  if op = 0 then none else v.mdRecord (op-1)

def ModuleView.opString (v : ModuleView) (op : Nat) : Option (List UInt8) :=
  if op = 0 then none else v.mdString (op-1)

/- The arguments. -/

inductive ArgKind where
  | buffer | texture | sampler
deriving DecidableEq, Repr

structure ArgBinding where
  kind : ArgKind
  metalIndex : Int
deriving DecidableEq, Repr

structure ArgScan where
  kind : Option ArgKind := none
  loc : Int := -1
  stagein : Bool := false
deriving DecidableEq, Repr

def stageinWords : List (List UInt8) :=
  [cstr "air.vertex_input", cstr "air.position", cstr "air.vertex_id", cstr "air.fragment_input"]

def locationKey : List UInt8 := cstr "air.location_index"

/-- One operand of an argument node, with the one behind it. -/
def ModuleView.argKey (v : ModuleView) (s : ArgScan) (op : Nat) (next : Option Nat) : ArgScan :=
  match v.opString op with
  | none => s
  | some str =>
    if str = cstr "air.buffer" then { s with kind := some (s.kind.getD .buffer) }
    else if str = cstr "air.texture" then { s with kind := some (s.kind.getD .texture) }
    else if str = cstr "air.sampler" then { s with kind := some (s.kind.getD .sampler) }
    else if str ∈ stageinWords then { s with stagein := true }
    else if str = locationKey then
      match next with
      | some (id+1) => { s with loc := v.mdValueInt (v.mdRecord id) }
      | _ => s
    else s

def ModuleView.argKeys (v : ModuleView) : List Nat → ArgScan → ArgScan
  | [], s => s
  | op :: ops, s => v.argKeys ops (v.argKey s op ops.head?)

/- The index has 16 bits. -/
def metalIndexOf (loc : Int) : Int := if 0 ≤ loc ∧ loc < 0x7fff then loc else -1

def ModuleView.argBinding (v : ModuleView) (op : Nat) : Option ArgBinding :=
  match v.nodeOp op with
  | none => none
  | some arg =>
    if arg.kind ≠ .node then none
    else
      let s := v.argKeys arg.operands {}
      if s.stagein = true then none
      else s.kind.map fun kind => ⟨kind, metalIndexOf s.loc⟩

/-- The loop over the argument nodes, with room for `max` bindings. -/
def ModuleView.collectArgs (v : ModuleView) : Nat → List Nat → List ArgBinding
  | _, [] => []
  | max, op :: ops =>
    if max = 0 then []
    else
      match v.argBinding op with
      | none => v.collectArgs max ops
      | some b => b :: v.collectArgs (max-1) ops

/-- `lagfx_air_arg_bindings`. -/
def ModuleView.argBindings (v : ModuleView) (max : Nat) : List ArgBinding :=
  match (v.namedMetadata (cstr "air.vertex")).or (v.namedMetadata (cstr "air.fragment")) with
  | none => []
  | some named =>
    match named.operands with
    | [] => []
    | id :: _ =>
      match v.mdRecord id with
      | none => []
      | some ep =>
        match ep.operands with
        | _ :: _ :: argsId :: _ =>
          match v.nodeOp argsId with
          | none => []
          | some args =>
            if ep.kind ≠ .node ∨ args.kind ≠ .node then [] else v.collectArgs max args.operands
        | _ => []

/- The function. -/

def staticInitWords : List (List UInt8) :=
  [cstr "_GLOBAL__sub_I", cstr "global_ctors", cstr ".static_init"]

/-- `strstr` finds one of the words in the name. -/
def FnView.staticInit (f : FnView) : Bool :=
  match f.name with
  | none => false
  | some nm => staticInitWords.any fun w => decide (w <:+: nm)

/-- A body that the loop of `translate_module` does not pass by. -/
def FnView.candidate (f : FnView) : Bool :=
  !f.isProto && decide (f.bodyOffset ≠ 0) && !f.staticInit

def ModuleView.bodyFn (v : ModuleView) : Option Nat := v.functions.findIdx? FnView.candidate

/-- What `translate_module` calls; a blob is the SPIR-V it got. -/
structure Translator where
  function : Nat → XlateStage → Except OpenStatus (List UInt8)
  positionStub : Option (List UInt8)
  renderTargetStub : Option (List UInt8)

def Translator.stub (tr : Translator) : TransStage → Except OpenStatus (List UInt8)
  | .unknown => .error .protocol
  | .vertex => tr.positionStub.elim (.error .outOfMemory) .ok
  | .fragment => tr.renderTargetStub.elim (.error .outOfMemory) .ok

/-- `calls`: the functions handed to `lagfx_air2spv_translate_function`. -/
structure TranslateRun where
  calls : List (Nat × XlateStage)
  result : Except OpenStatus (List UInt8)

/-- `lagfx_air2spv_translate_module`. -/
def translateModule (tr : Translator) (v : ModuleView) : TranslateRun :=
  let stage := discoverStage v
  match v.bodyFn, stage.xlate with
  | some fn, some xs =>
    match tr.function fn xs with
    | .ok blob => ⟨[(fn, xs)], .ok blob⟩
    | .error _ => ⟨[(fn, xs)], tr.stub stage⟩
  | _, _ => ⟨[], tr.stub stage⟩

/- What the metadata says. -/

inductive ArgRole where
  | resource (kind : ArgKind)
  | stagein
  | other
deriving DecidableEq, Repr

/-- The role that a word of an argument node gives the argument. -/
def argRole (word : List UInt8) : ArgRole :=
  if word = cstr "air.buffer" then .resource .buffer
  else if word = cstr "air.texture" then .resource .texture
  else if word = cstr "air.sampler" then .resource .sampler
  else if word ∈ stageinWords then .stagein
  else .other

/-- An argument of the entry function, with its location index if it has one. -/
structure EntryArg where
  role : ArgRole
  location : Option Int
deriving DecidableEq, Repr

def EntryArg.binding (arg : EntryArg) : Option ArgBinding :=
  match arg.role with
  | .resource kind => some ⟨kind, arg.location.getD (-1)⟩
  | _ => none

/-- The operand is a VALUE record of an integer constant of the module. -/
structure ModuleView.IntConstant (v : ModuleView) (op : Nat) (i : Int) : Prop where
  record : ∃ md ty k, v.nodeOp op = some md ∧ md.kind = .value ∧
    md.operands = [ty, v.numGlobalvars+v.functions.length+k] ∧
    v.numGlobalvars+v.functions.length+k < 2^32 ∧
    ∃ c, v.constants[k]? = some c ∧
      (c.kind = .integer ∧ c.payload = .i64 i ∨ c.kind = .null ∧ i = 0)

/-- At most one location key, with its constant behind it. -/
def ModuleView.Location (v : ModuleView) (ops : List Nat) : Option Int → Prop
  | none => ∀ o ∈ ops, v.opString o ≠ some locationKey
  | some i => ∃ before key loc after, ops = before++key :: loc :: after ∧
    v.opString key = some locationKey ∧ v.IntConstant loc i ∧
    ∀ o ∈ before++after, v.opString o ≠ some locationKey

/-- The operands `[argidx VALUE, word, ...]`: only the word is one of those with a role. -/
structure ModuleView.ArgOperands (v : ModuleView) (ops : List Nat) (arg : EntryArg) : Prop where
  split : ∃ idx w rest word, ops = idx :: w :: rest ∧ v.opString idx = none ∧
    v.opString w = some word ∧ argRole word = arg.role ∧ word ≠ locationKey ∧
    (∀ o ∈ rest, ∀ str, v.opString o = some str → argRole str = .other) ∧
    v.Location rest arg.location

def ModuleView.DescribesArg (v : ModuleView) (op : Nat) (arg : EntryArg) : Prop :=
  ∃ md, v.nodeOp op = some md ∧ md.kind = .node ∧ v.ArgOperands md.operands arg

def XlateStage.nodeName : XlateStage → List UInt8
  | .vertex => cstr "air.vertex"
  | .fragment => cstr "air.fragment"

/-- The records of an entry point. -/
structure EntryNode where
  named : MdView
  entry : MdView
  value : MdView
  args : MdView

/-- The named node of the stage refers to `[function VALUE, outputs, args]`; value ids count
the global variables and then the functions. -/
structure ModuleView.IsEntry (v : ModuleView) (n : EntryNode) (stage : XlateStage) (fn : Nat)
    (args : List EntryArg) : Prop where
  named : v.namedMetadata stage.nodeName = some n.named
  entry : ∃ id rest, n.named.operands = id :: rest ∧ v.mdRecord id = some n.entry
  entry_kind : n.entry.kind = .node
  fields : ∃ valueOp outputsOp argsOp rest,
    n.entry.operands = valueOp :: outputsOp :: argsOp :: rest ∧
      v.nodeOp valueOp = some n.value ∧ v.nodeOp argsOp = some n.args
  value_kind : n.value.kind = .value
  value_id : ∃ ty, n.value.operands = [ty, v.numGlobalvars+fn]
  function : fn < v.functions.length
  args_kind : n.args.kind = .node
  args_operands : List.Forall₂ v.DescribesArg n.args.operands args

/-- The entry function alone is translated, for its stage, and the bindings are those of its
resource arguments. -/
structure EntryTranslated (tr : Translator) (v : ModuleView) (stage : XlateStage) (fn : Nat)
    (args : List EntryArg) : Prop where
  calls : (translateModule tr v).calls = [(fn, stage)]
  result : ∀ blob, tr.function fn stage = .ok blob → (translateModule tr v).result = .ok blob
  bindings : ∀ max, v.argBindings max = (args.filterMap EntryArg.binding).take max

/-- The entry function is the first candidate, a fragment's module has no vertex node, and the
location indices have 16 bits. -/
structure EntryFirst (v : ModuleView) (stage : XlateStage) (fn : Nat) (args : List EntryArg) :
    Prop where
  candidate : ∃ f, v.functions[fn]? = some f ∧ f.candidate = true
  first : ∀ f ∈ v.functions.take fn, f.candidate = false
  stage : stage = .fragment → v.namedMetadata (cstr "air.vertex") = none
  locations : ∀ b ∈ args.filterMap EntryArg.binding, -1 ≤ b.metalIndex ∧ b.metalIndex < 0x7fff

/- The argument nodes. -/

theorem ModuleView.opString_of_nodeOp {v : ModuleView} {op : Nat} {md : MdView}
    (h : v.nodeOp op = some md) : v.opString op = none := by
  rw [ModuleView.nodeOp] at h
  split_ifs at h with hop
  rw [ModuleView.mdRecord] at h
  split_ifs at h with hid
  rw [ModuleView.opString, if_neg hop]
  exact List.getElem?_eq_none (not_lt.1 hid)

theorem ModuleView.IntConstant.value {v : ModuleView} {op : Nat} {i : Int}
    (h : v.IntConstant op i) : ∃ id, op = id+1 ∧ v.mdValueInt (v.mdRecord id) = i := by
  obtain ⟨md, ty, k, hop, hkind, hops, hfit, c, hc, hval⟩ := h.record
  rw [ModuleView.nodeOp] at hop
  split_ifs at hop with hzero
  refine ⟨op-1, by omega, ?_⟩
  have hbase : u32 (v.numGlobalvars+v.functions.length) = v.numGlobalvars+v.functions.length :=
    Nat.mod_eq_of_lt (by omega)
  have hge : ¬(md.kind ≠ .value ∨ v.numGlobalvars+v.functions.length+k <
      v.numGlobalvars+v.functions.length) := by
    rw [hkind]
    simp
  simp only [hop, ModuleView.mdValueInt, hops, hbase, if_neg hge, Nat.add_sub_cancel_left, hc]
  obtain ⟨hk, hp⟩ | ⟨hk, rfl⟩ := hval
  · rw [hk, hp]
  · rw [hk]

/-- Operands without a role and without the location key change nothing. -/
theorem ModuleView.argKey_plain {v : ModuleView} {op : Nat} (s : ArgScan) (next : Option Nat)
    (hrole : ∀ str, v.opString op = some str → argRole str = .other)
    (hloc : v.opString op ≠ some locationKey) : v.argKey s op next = s := by
  unfold ModuleView.argKey
  cases hstr : v.opString op with
  | none => rfl
  | some str =>
    have hother := hrole str hstr
    rw [argRole] at hother
    split_ifs at hother with h1 h2 h3 h4
    have hkey : str ≠ locationKey := fun h => hloc (h ▸ hstr)
    simp only [if_neg h1, if_neg h2, if_neg h3, if_neg h4, if_neg hkey]

theorem ModuleView.argKeys_plain {v : ModuleView} {ops : List Nat} (more : List Nat)
    (hrole : ∀ o ∈ ops, ∀ str, v.opString o = some str → argRole str = .other)
    (hloc : ∀ o ∈ ops, v.opString o ≠ some locationKey) :
    ∀ s, v.argKeys (ops++more) s = v.argKeys more s := by
  induction ops with
  | nil => exact fun s => rfl
  | cons op ops ih =>
    intro s
    rw [List.cons_append, ModuleView.argKeys, argKey_plain s _ (hrole op List.mem_cons_self)
      (hloc op List.mem_cons_self)]
    exact ih (fun o ho => hrole o (List.mem_cons_of_mem _ ho))
      (fun o ho => hloc o (List.mem_cons_of_mem _ ho)) s

theorem ModuleView.argKeys_location {v : ModuleView} {rest : List Nat} {loc : Option Int}
    (hrole : ∀ o ∈ rest, ∀ str, v.opString o = some str → argRole str = .other)
    (hloc : v.Location rest loc) {s : ArgScan} (hs : s.loc = -1) :
    v.argKeys rest s = { s with loc := loc.getD (-1) } := by
  cases loc with
  | none =>
    have hplain := argKeys_plain [] hrole hloc s
    rw [List.append_nil] at hplain
    rw [hplain, ModuleView.argKeys, Option.getD_none, ← hs]
  | some i =>
    obtain ⟨before, key, op, after, rfl, hkey, hconst, hno⟩ := hloc
    obtain ⟨id, rfl, hvalue⟩ := hconst.value
    obtain ⟨md, -, -, hop, -⟩ := hconst.record
    have hopstr := opString_of_nodeOp hop
    rw [argKeys_plain _ (fun o ho => hrole o (List.mem_append_left _ ho))
      (fun o ho => hno o (List.mem_append_left _ ho)), ModuleView.argKeys]
    have hset : v.argKey s key (some (id+1)) = { s with loc := i } := by
      unfold ModuleView.argKey
      rw [hkey, ← hvalue]
      rfl
    rw [List.head?_cons, hset, ModuleView.argKeys,
      argKey_plain _ _ (fun str h => by rw [hopstr] at h; cases h) (by rw [hopstr]; simp)]
    have hafter : v.argKeys (after++[]) { s with loc := i } = v.argKeys [] { s with loc := i } :=
      argKeys_plain [] (fun o ho => hrole o (List.mem_append_right _ (by simp [ho])))
        (fun o ho => hno o (List.mem_append_right _ ho)) _
    rw [List.append_nil] at hafter
    exact hafter

/-- What the scan notes of a role. -/
def ArgRole.scan : ArgRole → ArgScan
  | .resource kind => { kind := some kind }
  | .stagein => { stagein := true }
  | .other => {}

theorem ArgRole.scan_loc (role : ArgRole) : role.scan.loc = -1 := by
  cases role with
  | resource kind => rfl
  | stagein => rfl
  | other => rfl

theorem ModuleView.argKey_word {v : ModuleView} {op : Nat} {word : List UInt8}
    (h : v.opString op = some word) (hkey : word ≠ locationKey) (next : Option Nat) :
    v.argKey {} op next = (argRole word).scan := by
  unfold ModuleView.argKey argRole
  rw [h]
  dsimp only
  split_ifs with h1 h2 h3 h4
  · rfl
  · rfl
  · rfl
  · rfl
  · rfl

/-- The scan of an argument node finds its role and its location. -/
theorem ModuleView.argBinding_described {v : ModuleView} {op : Nat} {arg : EntryArg}
    (h : v.DescribesArg op arg) :
    v.argBinding op = arg.binding.map fun b => ⟨b.kind, metalIndexOf b.metalIndex⟩ := by
  obtain ⟨md, hmd, hkind, ⟨idx, w, rest, word, hops, hidx, hw, hrole, hkey, hrest, hloc⟩⟩ := h
  have hfirst : ∀ next, v.argKey {} idx next = {} := by
    intro next
    unfold ModuleView.argKey
    rw [hidx]
  have hscan : v.argKeys md.operands {} =
      { arg.role.scan with loc := arg.location.getD (-1) } := by
    rw [hops, ModuleView.argKeys, hfirst, ModuleView.argKeys, argKey_word hw hkey, hrole]
    exact argKeys_location hrest hloc arg.role.scan_loc
  have hnode : ¬md.kind ≠ .node := not_not.2 hkind
  simp only [ModuleView.argBinding, hmd, if_neg hnode, hscan, EntryArg.binding]
  cases arg.role with
  | resource kind => rfl
  | stagein => rfl
  | other => rfl

/-- The loop stops when the room is used up. -/
theorem ModuleView.collectArgs_eq (v : ModuleView) (ops : List Nat) : ∀ max,
    v.collectArgs max ops = (ops.filterMap v.argBinding).take max := by
  induction ops with
  | nil => exact fun max => by rw [ModuleView.collectArgs, List.filterMap_nil, List.take_nil]
  | cons op ops ih =>
    intro max
    rw [ModuleView.collectArgs, List.filterMap_cons]
    cases max with
    | zero => rfl
    | succ max =>
      rw [if_neg (Nat.succ_ne_zero max)]
      cases hb : v.argBinding op with
      | none => exact ih _
      | some b =>
        dsimp only
        rw [ih, List.take_succ_cons]
        rfl

/-- A binding as the code hands it out. -/
def ArgBinding.cut (b : ArgBinding) : ArgBinding := ⟨b.kind, metalIndexOf b.metalIndex⟩

theorem ModuleView.described_bindings {v : ModuleView} {ops : List Nat} {args : List EntryArg}
    (h : List.Forall₂ v.DescribesArg ops args) :
    ops.filterMap v.argBinding = (args.filterMap EntryArg.binding).map ArgBinding.cut := by
  induction h with
  | nil => rfl
  | @cons op arg ops args hop _ ih =>
    have hb := argBinding_described hop
    rw [List.filterMap_cons, List.filterMap_cons, hb]
    cases hbind : arg.binding with
    | none => exact ih
    | some b => exact congrArg (b.cut :: ·) ih

/- The entry point. -/

theorem ModuleView.IsEntry.stage {v : ModuleView} {n : EntryNode} {stage : XlateStage} {fn : Nat}
    {args : List EntryArg} (h : v.IsEntry n stage fn args) :
    (discoverStage v).xlate = some stage ↔
      (stage = .fragment → v.namedMetadata (cstr "air.vertex") = none) := by
  have hnamed := h.named
  cases stage with
  | vertex =>
    rw [XlateStage.nodeName] at hnamed
    simp [discoverStage, hnamed, TransStage.xlate]
  | fragment =>
    rw [XlateStage.nodeName] at hnamed
    cases hv : v.namedMetadata (cstr "air.vertex") with
    | none => simp [discoverStage, hv, hnamed, TransStage.xlate]
    | some md => simp [discoverStage, hv, TransStage.xlate]

theorem ModuleView.IsEntry.bindings {v : ModuleView} {n : EntryNode} {stage : XlateStage}
    {fn : Nat} {args : List EntryArg} (h : v.IsEntry n stage fn args)
    (hstage : stage = .fragment → v.namedMetadata (cstr "air.vertex") = none) (max : Nat) :
    v.argBindings max = ((args.filterMap EntryArg.binding).map ArgBinding.cut).take max := by
  have hnamed : (v.namedMetadata (cstr "air.vertex")).or
      (v.namedMetadata (cstr "air.fragment")) = some n.named := by
    have hfound := h.named
    cases stage with
    | vertex =>
      rw [XlateStage.nodeName] at hfound
      rw [hfound, Option.some_or]
    | fragment =>
      rw [XlateStage.nodeName] at hfound
      rw [hstage rfl, hfound, Option.none_or]
  obtain ⟨id, rest, hid, hentry⟩ := h.entry
  obtain ⟨valueOp, outputsOp, argsOp, more, hfields, -, hargs⟩ := h.fields
  have hkinds : ¬(n.entry.kind ≠ .node ∨ n.args.kind ≠ .node) := by
    rw [h.entry_kind, h.args_kind]
    simp
  simp only [ModuleView.argBindings, hnamed, hid, hentry, hfields, hargs, if_neg hkinds]
  rw [collectArgs_eq, described_bindings h.args_operands]

/-- The loop takes the first candidate. -/
theorem ModuleView.bodyFn_eq (v : ModuleView) (fn : Nat) : v.bodyFn = some fn ↔
    (∃ f, v.functions[fn]? = some f ∧ f.candidate = true) ∧
      ∀ f ∈ v.functions.take fn, f.candidate = false := by
  rw [ModuleView.bodyFn, List.findIdx?_eq_some_iff_getElem]
  constructor
  · intro h
    obtain ⟨hlt, hc, hbefore⟩ := h
    refine ⟨⟨_, List.getElem?_eq_getElem hlt, hc⟩, fun f hf => ?_⟩
    obtain ⟨j, hj, rfl⟩ := List.mem_iff_getElem.1 hf
    rw [List.length_take] at hj
    rw [List.getElem_take]
    exact Bool.eq_false_iff.2 (hbefore j (by omega))
  · intro h
    obtain ⟨⟨f, hf, hc⟩, hbefore⟩ := h
    obtain ⟨hlt, rfl⟩ := List.getElem?_eq_some_iff.1 hf
    refine ⟨hlt, hc, fun j hj => Bool.eq_false_iff.1 (hbefore _ ?_)⟩
    exact List.mem_iff_getElem.2 ⟨j, by rw [List.length_take]; omega, List.getElem_take⟩

theorem translateModule_calls (tr : Translator) (v : ModuleView) (fn : Nat) (stage : XlateStage) :
    (translateModule tr v).calls = [(fn, stage)] ↔
      v.bodyFn = some fn ∧ (discoverStage v).xlate = some stage := by
  cases hfn : v.bodyFn with
  | none => simp [translateModule, hfn]
  | some i =>
    cases hxs : (discoverStage v).xlate with
    | none => simp [translateModule, hfn, hxs]
    | some xs =>
      cases htr : tr.function i xs with
      | ok blob => simp [translateModule, hfn, hxs, htr]
      | error e => simp [translateModule, hfn, hxs, htr]

theorem translateModule_result {tr : Translator} {v : ModuleView} {fn : Nat} {stage : XlateStage}
    (hfn : v.bodyFn = some fn) (hstage : (discoverStage v).xlate = some stage) {blob : List UInt8}
    (h : tr.function fn stage = .ok blob) : (translateModule tr v).result = .ok blob := by
  rw [translateModule]
  simp only [hfn, hstage, h]

theorem ArgBinding.cut_eq (b : ArgBinding) :
    b.cut = b ↔ -1 ≤ b.metalIndex ∧ b.metalIndex < 0x7fff := by
  cases b with
  | mk kind metalIndex =>
    simp only [ArgBinding.cut, ArgBinding.mk.injEq, true_and, metalIndexOf]
    split_ifs with h
    · omega
    · omega

theorem entry_translated_iff (tr : Translator) (env : ReaderEnv) (m : AirModule) (n : EntryNode)
    (stage : XlateStage) (fn : Nat) (args : List EntryArg)
    (h : (m.view env).IsEntry n stage fn args) :
    EntryTranslated tr (m.view env) stage fn args ↔ EntryFirst (m.view env) stage fn args := by
  constructor
  · intro ht
    obtain ⟨hfn, hxs⟩ := (translateModule_calls _ _ _ _).1 ht.calls
    obtain ⟨hcandidate, hfirst⟩ := (ModuleView.bodyFn_eq _ _).1 hfn
    have hstage := h.stage.1 hxs
    refine ⟨hcandidate, hfirst, hstage, fun b hb => b.cut_eq.1 ?_⟩
    -- room for all of them
    have hall := ht.bindings (args.filterMap EntryArg.binding).length
    rw [h.bindings hstage, ← List.map_take, List.take_length] at hall
    have hcut : (args.filterMap EntryArg.binding).map ArgBinding.cut =
        (args.filterMap EntryArg.binding).map id := hall.trans (List.map_id _).symm
    exact List.map_inj_left.1 hcut b hb
  · intro hf
    have hfn := (ModuleView.bodyFn_eq _ _).2 ⟨hf.candidate, hf.first⟩
    have hxs := h.stage.2 hf.stage
    refine ⟨(translateModule_calls _ _ _ _).2 ⟨hfn, hxs⟩,
      fun blob hblob => translateModule_result hfn hxs hblob, fun max => ?_⟩
    have hcut : (args.filterMap EntryArg.binding).map ArgBinding.cut =
        (args.filterMap EntryArg.binding).map id :=
      List.map_congr_left fun b hb => b.cut_eq.2 (hf.locations b hb)
    rw [h.bindings hf.stage, hcut, List.map_id]

/- A vertex module of two functions with a body each and without parameters but a buffer at
index 1; `entry` is the function that the metadata names. -/
def vertexModule (entry : Nat) : AirModule :=
  let cells : List (Nat × Cell) :=
    [(8, .function ⟨200, 1, 0, 0, 0, 0, false, 400, 8⟩),
      (56, .function ⟨202, 1, 0, 0, 0, 0, false, 408, 8⟩),
      (200, .bytes [102, 0]), (208, .bytes [103, 0]),
      (216, .bytes (cstr "air.vertex"++[0])), (232, .bytes (cstr "air.buffer"++[0])),
      (248, .bytes (locationKey++[0])), (272, .words [0, entry]), (280, .words [0, 2]),
      (288, .words [0, 3]), (296, .words [4, 1, 2, 5]), (312, .words [6]),
      (320, .words [3, 8, 7]), (336, .words [8])]
  { arena := { Arena.init 4096 0 with
      used := 416, cells := cells.foldl (fun c e => Function.update c e.1 (some e.2)) fun _ => none }
    functionsOff := 8
    numFunctions := 2
    constants := [⟨.integer, 0, .i64 0⟩, ⟨.integer, 0, .i64 1⟩]
    metadataStringOffsets := [232, 248]
    metadata :=
      [⟨.value, 0, some ⟨0, 272⟩, 2⟩, ⟨.value, 0, some ⟨0, 280⟩, 2⟩,
        ⟨.value, 0, some ⟨0, 288⟩, 2⟩, ⟨.node, 0, some ⟨0, 296⟩, 4⟩,
        ⟨.node, 0, some ⟨0, 312⟩, 1⟩, ⟨.node, 0, none, 0⟩,
        ⟨.node, 0, some ⟨0, 320⟩, 3⟩, ⟨.namedNode, 216, some ⟨0, 336⟩, 1⟩] }

def vertexEntryNode (entry : Nat) : EntryNode where
  named := ⟨.namedNode, some (cstr "air.vertex"), [8]⟩
  entry := ⟨.node, none, [3, 8, 7]⟩
  value := ⟨.value, none, [0, entry]⟩
  args := ⟨.node, none, [6]⟩

def vertexArgs : List EntryArg := [⟨.resource .buffer, some 1⟩]

theorem vertexModule_isEntry {entry : Nat} (h : entry < 2) :
    ((vertexModule entry).view allGranted).IsEntry (vertexEntryNode entry) .vertex entry
      vertexArgs := by
  let v := (vertexModule entry).view allGranted
  have hkey : v.opString 2 = some locationKey := rfl
  have hindex : v.opString 5 = none := rfl
  have hfit : 0+2+1 < 2^32 := by decide
  have hconst : v.IntConstant 5 1 :=
    ⟨⟨.value, none, [0, 3]⟩, 0, 1, rfl, rfl, rfl, hfit, _, rfl, .inl ⟨rfl, rfl⟩⟩
  have hrest : ∀ o ∈ [2, 5], ∀ str, v.opString o = some str → argRole str = .other := by
    intro o ho str hstr
    obtain rfl | ho := List.mem_cons.1 ho
    · rw [hkey] at hstr
      cases hstr
      decide
    · rw [List.mem_singleton.1 ho, hindex] at hstr
      cases hstr
  have harg : v.DescribesArg 6 ⟨.resource .buffer, some 1⟩ :=
    ⟨⟨.node, none, [4, 1, 2, 5]⟩, rfl, rfl, ⟨4, 1, [2, 5], cstr "air.buffer", rfl, rfl, rfl,
      by decide, by decide, hrest, [], 2, 5, [], rfl, hkey, hconst, by simp⟩⟩
  exact ⟨rfl, ⟨8, [], rfl, rfl⟩, rfl, ⟨3, 8, 7, [], rfl, rfl, rfl⟩, rfl,
    ⟨0, congrArg (fun i => [0, i]) (Nat.zero_add entry).symm⟩, h, rfl, .cons harg .nil⟩

def stubTranslator : Translator := ⟨fun _ _ => .ok [], none, none⟩

/-- The metadata names the first of the two functions. -/
theorem first_entry_translated :
    EntryTranslated stubTranslator ((vertexModule 0).view allGranted) .vertex 0 vertexArgs := by
  apply (entry_translated_iff stubTranslator allGranted (vertexModule 0) (vertexEntryNode 0) .vertex 0
    vertexArgs (vertexModule_isEntry (by decide))).2
  exact ⟨⟨_, rfl, by decide⟩, by decide, by decide, by decide⟩

/-- A helper defined before the entry function is translated in its place. -/
theorem helper_translated :
    ((vertexModule 1).view allGranted).IsEntry (vertexEntryNode 1) .vertex 1 vertexArgs ∧
      (translateModule stubTranslator ((vertexModule 1).view allGranted)).calls = [(0, .vertex)] ∧
      ¬ EntryTranslated stubTranslator ((vertexModule 1).view allGranted) .vertex 1 vertexArgs := by
  have hcalls : (translateModule stubTranslator ((vertexModule 1).view allGranted)).calls =
      [(0, .vertex)] := by decide
  refine ⟨vertexModule_isEntry (by decide), hcalls, fun h => ?_⟩
  have hentry := h.calls
  rw [hcalls] at hentry
  exact absurd hentry (by decide)

end Lagfx
