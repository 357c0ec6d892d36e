import Lagfx.Lib.InsertionSort
import Lagfx.Lib.WriteTable
import Lagfx.PendingPipeline
import Lagfx.SpvBuilder

/-! Reflection of a translated module: its descriptor bindings and its stage-in attributes,
joined through id tables in one pass. A blob is the list of its words. -/
namespace Lagfx
open InsertionSort WriteTable SpvBuilder

/-- MAXID: the id tables end here. -/
def maxId : Nat := 8192

/-- The instructions a scan meets; it stops at a word count of 0 or past the end. -/
def scanInsts : Nat → List Nat → List Inst
  | n+1, w :: ws =>
    let wc := w/65536%65536
    if wc = 0 ∨ ws.length+1 < wc then []
    else ⟨w%65536, ws.take (wc-1)⟩ :: scanInsts n (ws.drop (wc-1))
  | _, _ => []

/-- A blob with another magic word, or without a whole header, has no instructions. -/
def blobInsts (spv : List Nat) : List Inst :=
  if spv.length < 5 ∨ spv.getD 0 0 ≠ spvMagicWord then []
  else scanInsts spv.length (spv.drop 5)

def instArg (i : Inst) (k : Nat) : Nat := i.operands.getD k 0

/- What an instruction writes in the tables. -/

/-- OpDecorate of a target below the limit. -/
def decorationWrite (dec : Nat) (i : Inst) : Option (Nat × Nat) :=
  if i.opcode = 71 ∧ 3 ≤ i.operands.length ∧ instArg i 0 < maxId ∧ instArg i 1 = dec then
    some (instArg i 0, instArg i 2)
  else none

def typeWrite (opcode : Nat) (i : Inst) : Option (Nat × Unit) :=
  if i.opcode = opcode ∧ 1 ≤ i.operands.length ∧ instArg i 0 < maxId then some (instArg i 0, ())
  else none

/-- OpTypePointer: the pointee. -/
def pointerWrite (i : Inst) : Option (Nat × Nat) :=
  if i.opcode = 32 ∧ 3 ≤ i.operands.length ∧ instArg i 0 < maxId then
    some (instArg i 0, instArg i 2)
  else none

/-- OpVariable: its pointer type and storage class. -/
def variableWrite (i : Inst) : Option (Nat × (Nat × Nat)) :=
  if i.opcode = 59 ∧ 3 ≤ i.operands.length ∧ instArg i 1 < maxId then
    some (instArg i 1, (instArg i 0, instArg i 2))
  else none

/-- Components of OpTypeVector, at most 4, and of OpTypeFloat. -/
def componentWrite (i : Inst) : Option (Nat × Nat) :=
  if i.opcode = 23 ∧ 3 ≤ i.operands.length ∧ instArg i 0 < maxId then
    some (instArg i 0, min (instArg i 2) 4)
  else if i.opcode = 22 ∧ 1 ≤ i.operands.length ∧ instArg i 0 < maxId then some (instArg i 0, 1)
  else none

structure ReflectTables where
  set : Nat → Option Nat := fun _ => none
  binding : Nat → Option Nat := fun _ => none
  var : Nat → Option (Nat × Nat) := fun _ => none
  pointee : Nat → Option Nat := fun _ => none
  image : Nat → Option Unit := fun _ => none
  sampledImage : Nat → Option Unit := fun _ => none
  sampler : Nat → Option Unit := fun _ => none
  struct : Nat → Option Unit := fun _ => none

def ReflectTables.step (t : ReflectTables) (i : Inst) : ReflectTables where
  set := write t.set (decorationWrite 34 i)
  binding := write t.binding (decorationWrite 33 i)
  var := write t.var (variableWrite i)
  pointee := write t.pointee (pointerWrite i)
  image := write t.image (typeWrite 25 i)
  sampledImage := write t.sampledImage (typeWrite 27 i)
  sampler := write t.sampler (typeWrite 26 i)
  struct := write t.struct (typeWrite 30 i)

def reflectTables (is : List Inst) : ReflectTables := is.foldl ReflectTables.step {}

/-- A struct counts in the StorageBuffer class only. -/
def ReflectTables.kind (t : ReflectTables) (pointee storage : Nat) : SpvBindingKind :=
  if maxId ≤ pointee then .unknown
  else if (t.image pointee).isSome ∨ (t.sampledImage pointee).isSome then .sampledImage
  else if (t.sampler pointee).isSome then .sampler
  else if (t.struct pointee).isSome ∧ storage = 12 then .storageBuffer
  else .unknown

/-- The pointee of a type id, 0 where the table has none. -/
def pointeeAt (pointee : Nat → Option Nat) (ptr : Nat) : Nat :=
  if ptr < maxId then (pointee ptr).getD 0 else 0

def ReflectTables.bindingAt (t : ReflectTables) (id : Nat) : Option SpvBinding :=
  match t.var id, t.set id, t.binding id with
  | some v, some set, some binding =>
    let kind := t.kind (pointeeAt t.pointee v.1) v.2
    if kind = .unknown then none else some ⟨set, binding, kind⟩
  | _, _, _ => none

/-- The bindings found, in the order of their ids. -/
def foundBindings (is : List Inst) : List SpvBinding :=
  (List.range maxId).filterMap (reflectTables is).bindingAt

def bindingAfter (x key : SpvBinding) : Prop :=
  key.set < x.set ∨ x.set = key.set ∧ key.binding < x.binding

instance : DecidableRel bindingAfter := fun _ _ => inferInstanceAs (Decidable (_ ∨ _ ∧ _))

/-- lagfx_spv_reflect_bindings: the count, and what is written: the first `cap`, sorted. -/
def spvReflectBindings (spv : List Nat) (cap : Nat) : Nat × List SpvBinding :=
  ((foundBindings (blobInsts spv)).length,
    sort bindingAfter ((foundBindings (blobInsts spv)).take cap))

structure InputTables where
  loc : Nat → Option Nat := fun _ => none
  var : Nat → Option (Nat × Nat) := fun _ => none
  pointee : Nat → Option Nat := fun _ => none
  comp : Nat → Option Nat := fun _ => none

def InputTables.step (t : InputTables) (i : Inst) : InputTables where
  loc := write t.loc (decorationWrite 30 i)
  var := write t.var (variableWrite i)
  pointee := write t.pointee (pointerWrite i)
  comp := write t.comp (componentWrite i)

def inputTables (is : List Inst) : InputTables := is.foldl InputTables.step {}

/-- Four components where the type is no vector or float of the tables. -/
def InputTables.components (t : InputTables) (pointee : Nat) : Nat :=
  let comp := if pointee < maxId then (t.comp pointee).getD 0 else 0
  if comp = 0 then 4 else comp

/-- Location and components of an Input variable. -/
def InputTables.inputAt (t : InputTables) (id : Nat) : Option (Nat × Nat) :=
  match t.var id, t.loc id with
  | some v, some loc =>
    if v.2 = 1 then some (loc, t.components (pointeeAt t.pointee v.1)) else none
  | _, _ => none

def foundInputs (is : List Inst) : List (Nat × Nat) :=
  (List.range maxId).filterMap (inputTables is).inputAt

def inputAfter (x key : Nat × Nat) : Prop := key.1 < x.1

instance : DecidableRel inputAfter := fun _ _ => inferInstanceAs (Decidable (_ < _))

/-- lagfx_spv_reflect_vertex_inputs. -/
def spvReflectVertexInputs (spv : List Nat) (cap : Nat) : Nat × List (Nat × Nat) :=
  ((foundInputs (blobInsts spv)).length,
    sort inputAfter ((foundInputs (blobInsts spv)).take cap))

/- What a module declares. -/

def Decorated (is : List Inst) (id dec value : Nat) : Prop :=
  ∃ i ∈ is, i.opcode = 71 ∧ instArg i 0 = id ∧ instArg i 1 = dec ∧ instArg i 2 = value

def IsVariable (is : List Inst) (id ptr storage : Nat) : Prop :=
  ∃ i ∈ is, i.opcode = 59 ∧ instArg i 1 = id ∧ instArg i 0 = ptr ∧ instArg i 2 = storage

def PointsTo (is : List Inst) (ptr pointee : Nat) : Prop :=
  ∃ i ∈ is, i.opcode = 32 ∧ instArg i 0 = ptr ∧ instArg i 2 = pointee

/-- The id is a type of this opcode. -/
def IsType (is : List Inst) (opcode id : Nat) : Prop :=
  ∃ i ∈ is, i.opcode = opcode ∧ instArg i 0 = id

inductive KindOf (is : List Inst) (pointee storage : Nat) : SpvBindingKind → Prop where
  | image (h : IsType is 25 pointee) : KindOf is pointee storage .sampledImage
  | sampledImage (h : IsType is 27 pointee) : KindOf is pointee storage .sampledImage
  | sampler (h : IsType is 26 pointee) : KindOf is pointee storage .sampler
  | storageBuffer (h : IsType is 30 pointee) (hs : storage = 12) :
    KindOf is pointee storage .storageBuffer

theorem KindOf.type {is : List Inst} {pointee storage : Nat} {k : SpvBindingKind}
    (h : KindOf is pointee storage k) : ∃ op, (19 ≤ op ∧ op ≤ 33) ∧ IsType is op pointee := by
  cases h with
  | image h => exact ⟨25, by omega, h⟩
  | sampledImage h => exact ⟨27, by omega, h⟩
  | sampler h => exact ⟨26, by omega, h⟩
  | storageBuffer h _ => exact ⟨30, by omega, h⟩

/-- The variable `id` is the resource `b`. -/
structure DeclaresBinding (is : List Inst) (id ptr storage pointee : Nat) (b : SpvBinding) :
    Prop where
  var : IsVariable is id ptr storage
  set : Decorated is id 34 b.set
  binding : Decorated is id 33 b.binding
  pointer : PointsTo is ptr pointee
  kind : KindOf is pointee storage b.kind

/-- The component count of a type: of a float, or of a vector as far as the fourth. -/
inductive ComponentsOf (is : List Inst) (pointee : Nat) : Nat → Prop where
  | float (h : IsType is 22 pointee) : ComponentsOf is pointee 1
  | vector (i : Inst) (hi : i ∈ is) (ho : i.opcode = 23) (ha : instArg i 0 = pointee) :
    ComponentsOf is pointee (min (instArg i 2) 4)

/-- The type of `ptr` and its pointee are in the tables. -/
def PointsBelow (is : List Inst) (ptr pointee : Nat) : Prop :=
  ptr < maxId ∧ pointee < maxId ∧ PointsTo is ptr pointee

/-- The variable `id` is an Input at `a.1` with `a.2` components; what is no float or
vector of the tables counts as four. -/
structure DeclaresInput (is : List Inst) (id ptr : Nat) (a : Nat × Nat) : Prop where
  var : IsVariable is id ptr 1
  loc : Decorated is id 30 a.1
  comp : (∃ pointee, PointsBelow is ptr pointee ∧ ComponentsOf is pointee a.2) ∨
    a.2 = 4 ∧ ¬ ∃ pointee comp, PointsBelow is ptr pointee ∧ ComponentsOf is pointee comp

def instWords (i : Inst) : List Nat := ((i.operands.length+1)*65536+i.opcode) :: i.operands

/-- Result ids of types and variables. -/
def resultId (i : Inst) : Option Nat :=
  if 19 ≤ i.opcode ∧ i.opcode ≤ 33 then i.operands[0]?
  else if i.opcode = 59 then i.operands[1]?
  else none

def decorationTarget (dec : Nat) (i : Inst) : Option Nat :=
  if i.opcode = 71 ∧ instArg i 1 = dec then i.operands[0]? else none

/-- The operands an instruction has at least. -/
def leastOperands (i : Inst) : Nat :=
  if i.opcode = 71 then (if instArg i 1 = 30 ∨ instArg i 1 = 33 ∨ instArg i 1 = 34 then 3 else 2)
  else if i.opcode = 32 ∨ i.opcode = 59 ∨ i.opcode = 23 then 3
  else if 19 ≤ i.opcode ∧ i.opcode ≤ 33 then 1
  else 0

/-- A header and the words of these instructions: ids are defined once and are not 0, a
target has each of the three decorations once, a vector has two components or more. -/
structure WellFormedModule (spv : List Nat) (is : List Inst) : Prop where
  words : ∃ header : List Nat, header.length = 4 ∧
    spv = spvMagicWord :: header++is.flatMap instWords
  fits : ∀ i ∈ is, i.opcode < 65536 ∧ i.operands.length+1 < 65536
  least : ∀ i ∈ is, leastOperands i ≤ i.operands.length
  ids : (is.filterMap resultId).Nodup
  nonzero : ∀ i ∈ is, resultId i ≠ some 0
  once : ∀ dec ∈ [30, 33, 34], (is.filterMap (decorationTarget dec)).Nodup
  vectors : ∀ i ∈ is, i.opcode = 23 → 2 ≤ instArg i 2

/-- Each table is filled on its own. -/
theorem reflectTables_eq (is : List Inst) : reflectTables is =
    { set := table (decorationWrite 34) is
      binding := table (decorationWrite 33) is
      var := table variableWrite is
      pointee := table pointerWrite is
      image := table (typeWrite 25) is
      sampledImage := table (typeWrite 27) is
      sampler := table (typeWrite 26) is
      struct := table (typeWrite 30) is } := by
  induction is using List.reverseRecOn with
  | nil => rfl
  | append_singleton is i ih =>
    rw [reflectTables] at ih ⊢
    rw [List.foldl_append, List.foldl_cons, List.foldl_nil, ih]
    simp only [ReflectTables.step, table_append]

theorem inputTables_eq (is : List Inst) : inputTables is =
    { loc := table (decorationWrite 30) is
      var := table variableWrite is
      pointee := table pointerWrite is
      comp := table componentWrite is } := by
  induction is using List.reverseRecOn with
  | nil => rfl
  | append_singleton is i ih =>
    rw [inputTables] at ih ⊢
    rw [List.foldl_append, List.foldl_cons, List.foldl_nil, ih]
    simp only [InputTables.step, table_append]

theorem instArg_some {i : Inst} {k : Nat} (h : k < i.operands.length) :
    i.operands[k]? = some (instArg i k) := by
  rw [instArg, List.getD_eq_getElem?_getD, List.getElem?_eq_getElem h]
  rfl

theorem decorationWrite_iff {dec : Nat} {i : Inst} {p : Nat × Nat} :
    decorationWrite dec i = some p ↔
      3 ≤ i.operands.length ∧ i.opcode = 71 ∧ instArg i 0 = p.1 ∧ p.1 < maxId ∧
        instArg i 1 = dec ∧ instArg i 2 = p.2 := by
  rw [decorationWrite]
  constructor
  · intro hw
    split_ifs at hw with hc
    obtain rfl := Option.some_inj.1 hw
    exact ⟨hc.2.1, hc.1, rfl, hc.2.2.1, hc.2.2.2, rfl⟩
  · intro hp
    obtain ⟨hlen, ho, h0, hlt, h1, h2⟩ := hp
    rw [if_pos ⟨ho, hlen, by omega, h1⟩, h0, h2]

section wellformed
variable {spv : List Nat} {is : List Inst} (h : WellFormedModule spv is)
include h

theorem WellFormedModule.decoration_operands {dec : Nat} (hd : dec ∈ [30, 33, 34]) {i : Inst}
    (hi : i ∈ is) (ho : i.opcode = 71) (h1 : instArg i 1 = dec) : 3 ≤ i.operands.length := by
  have hlen := h.least i hi
  have hdec : dec = 30 ∨ dec = 33 ∨ dec = 34 := by simpa using hd
  rw [leastOperands, if_pos ho, h1, if_pos hdec] at hlen
  exact hlen

theorem WellFormedModule.three_operands {i : Inst} (hi : i ∈ is)
    (ho : i.opcode = 32 ∨ i.opcode = 59 ∨ i.opcode = 23) : 3 ≤ i.operands.length := by
  have hlen := h.least i hi
  rw [leastOperands, if_neg (by omega), if_pos ho] at hlen
  exact hlen

theorem WellFormedModule.one_operand {i : Inst} (hi : i ∈ is)
    (ho : 19 ≤ i.opcode ∧ i.opcode ≤ 33) : 1 ≤ i.operands.length := by
  have hleast := h.least i hi
  rw [leastOperands] at hleast
  split_ifs at hleast <;> omega

/-- The result of a type declaration is its first operand. -/
theorem WellFormedModule.type_result {i : Inst} (hi : i ∈ is)
    (ho : 19 ≤ i.opcode ∧ i.opcode ≤ 33) : resultId i = some (instArg i 0) := by
  rw [resultId, if_pos ho, instArg_some (h.one_operand hi ho)]

/-- A decoration table holds the decorations of the ids below the limit. -/
theorem WellFormedModule.decorated_iff {dec : Nat} (hd : dec ∈ [30, 33, 34]) {id v : Nat} :
    table (decorationWrite dec) is id = some v ↔ id < maxId ∧ Decorated is id dec v := by
  have hkeys : ∀ i ∈ is, ∀ p, decorationWrite dec i = some p →
      decorationTarget dec i = some p.1 := by
    intro i hi p hw
    obtain ⟨hlen, ho, h0, -, h1, -⟩ := decorationWrite_iff.1 hw
    rw [decorationTarget, if_pos ⟨ho, h1⟩, instArg_some (by omega), h0]
  rw [table_iff hkeys (h.once dec hd)]
  constructor
  · intro hw
    obtain ⟨i, hi, hwi⟩ := hw
    obtain ⟨-, ho, h0, hlt, h1, h2⟩ := decorationWrite_iff.1 hwi
    exact ⟨hlt, i, hi, ho, h0, h1, h2⟩
  · intro hdec
    obtain ⟨hlt, i, hi, ho, h0, h1, h2⟩ := hdec
    have hlen := h.decoration_operands hd hi ho h1
    exact ⟨i, hi, decorationWrite_iff.2 ⟨hlen, ho, h0, hlt, h1, h2⟩⟩

theorem WellFormedModule.variable_iff {id ptr storage : Nat} :
    table variableWrite is id = some (ptr, storage) ↔
      id < maxId ∧ IsVariable is id ptr storage := by
  have hkeys : ∀ i ∈ is, ∀ p, variableWrite i = some p → resultId i = some p.1 := by
    intro i hi p hw
    rw [variableWrite] at hw
    split_ifs at hw with hc
    obtain rfl := Option.some_inj.1 hw
    rw [resultId, if_neg (by omega), if_pos hc.1, instArg_some (by omega)]
  rw [table_iff hkeys h.ids]
  constructor
  · intro hw
    obtain ⟨i, hi, hwi⟩ := hw
    rw [variableWrite] at hwi
    split_ifs at hwi with hc
    simp only [Option.some_inj, Prod.mk.injEq] at hwi
    exact ⟨hwi.1 ▸ hc.2.2, i, hi, hc.1, hwi.1, hwi.2.1, hwi.2.2⟩
  · intro hv
    obtain ⟨hlt, i, hi, ho, h1, h0, h2⟩ := hv
    have hlen := h.three_operands hi (by omega)
    exact ⟨i, hi, by rw [variableWrite, if_pos ⟨ho, hlen, by omega⟩, h1, h0, h2]⟩

theorem WellFormedModule.pointer_iff {ptr pointee : Nat} :
    table pointerWrite is ptr = some pointee ↔ ptr < maxId ∧ PointsTo is ptr pointee := by
  have hkeys : ∀ i ∈ is, ∀ p, pointerWrite i = some p → resultId i = some p.1 := by
    intro i hi p hw
    rw [pointerWrite] at hw
    split_ifs at hw with hc
    obtain rfl := Option.some_inj.1 hw
    rw [resultId, if_pos (by omega), instArg_some (by omega)]
  rw [table_iff hkeys h.ids]
  constructor
  · intro hw
    obtain ⟨i, hi, hwi⟩ := hw
    rw [pointerWrite] at hwi
    split_ifs at hwi with hc
    simp only [Option.some_inj, Prod.mk.injEq] at hwi
    exact ⟨hwi.1 ▸ hc.2.2, i, hi, hc.1, hwi.1, hwi.2⟩
  · intro hv
    obtain ⟨hlt, i, hi, ho, h0, h2⟩ := hv
    have hlen := h.three_operands hi (by omega)
    exact ⟨i, hi, by rw [pointerWrite, if_pos ⟨ho, hlen, by omega⟩, h0, h2]⟩

theorem WellFormedModule.type_iff {opcode : Nat} (ho : 19 ≤ opcode ∧ opcode ≤ 33) {id : Nat} :
    (table (typeWrite opcode) is id).isSome ↔ id < maxId ∧ IsType is opcode id := by
  have hkeys : ∀ i ∈ is, ∀ p, typeWrite opcode i = some p → resultId i = some p.1 := by
    intro i hi p hw
    rw [typeWrite] at hw
    split_ifs at hw with hc
    obtain rfl := Option.some_inj.1 hw
    rw [resultId, if_pos (by omega), instArg_some (by omega)]
  rw [Option.isSome_iff_exists]
  constructor
  · intro hw
    obtain ⟨v, hv⟩ := hw
    obtain ⟨i, hi, hwi⟩ := (table_iff hkeys h.ids).1 hv
    rw [typeWrite] at hwi
    split_ifs at hwi with hc
    simp only [Option.some_inj, Prod.mk.injEq] at hwi
    exact ⟨hwi.1 ▸ hc.2.2, i, hi, hc.1, hwi.1⟩
  · intro hv
    obtain ⟨hlt, i, hi, hop, h0⟩ := hv
    have hlen := h.one_operand hi (by omega)
    refine ⟨(), (table_iff hkeys h.ids).2 ⟨i, hi, ?_⟩⟩
    rw [typeWrite, if_pos ⟨hop, hlen, by omega⟩, h0]

theorem WellFormedModule.component_iff {id comp : Nat} :
    table componentWrite is id = some comp ↔ id < maxId ∧ ComponentsOf is id comp := by
  have hkeys : ∀ i ∈ is, ∀ p, componentWrite i = some p → resultId i = some p.1 := by
    intro i hi p hw
    rw [componentWrite] at hw
    split_ifs at hw with hc hc'
    · obtain rfl := Option.some_inj.1 hw
      rw [resultId, if_pos (by omega), instArg_some (by omega)]
    · obtain rfl := Option.some_inj.1 hw
      rw [resultId, if_pos (by omega), instArg_some (by omega)]
  rw [table_iff hkeys h.ids]
  constructor
  · intro hw
    obtain ⟨i, hi, hwi⟩ := hw
    rw [componentWrite] at hwi
    split_ifs at hwi with hc hc'
    · simp only [Option.some_inj, Prod.mk.injEq] at hwi
      obtain ⟨rfl, rfl⟩ := hwi
      exact ⟨hc.2.2, .vector i hi hc.1 rfl⟩
    · simp only [Option.some_inj, Prod.mk.injEq] at hwi
      obtain ⟨rfl, rfl⟩ := hwi
      exact ⟨hc'.2.2, .float ⟨i, hi, hc'.1, rfl⟩⟩
  · intro hv
    obtain ⟨hlt, hcomp⟩ := hv
    cases hcomp with
    | float hf =>
      obtain ⟨i, hi, ho, h0⟩ := hf
      have hlen := h.one_operand hi (by omega)
      refine ⟨i, hi, ?_⟩
      rw [componentWrite, if_neg (by omega), if_pos ⟨ho, hlen, by omega⟩, h0]
    | vector i hi ho h0 =>
      have hlen := h.three_operands hi (by omega)
      refine ⟨i, hi, ?_⟩
      rw [componentWrite, if_pos ⟨ho, hlen, by omega⟩, h0]

/-- An id is a type of one opcode only. -/
theorem WellFormedModule.type_unique {opcode opcode' id : Nat} (ho : 19 ≤ opcode ∧ opcode ≤ 33)
    (ho' : 19 ≤ opcode' ∧ opcode' ≤ 33) (ht : IsType is opcode id) (ht' : IsType is opcode' id) :
    opcode = opcode' := by
  obtain ⟨i, hi, hio, hi0⟩ := ht
  obtain ⟨j, hj, hjo, hj0⟩ := ht'
  have hri := h.type_result hi (hio ▸ ho)
  have hrj := h.type_result hj (hjo ▸ ho')
  rw [hi0] at hri
  rw [hj0] at hrj
  rw [← hio, ← hjo, eq_of_key h.ids hi hj hri hrj]

/-- 0 is no type. -/
theorem WellFormedModule.type_ne_zero {opcode : Nat} (ho : 19 ≤ opcode ∧ opcode ≤ 33) :
    ¬ IsType is opcode 0 := by
  intro ht
  obtain ⟨i, hi, hio, h0⟩ := ht
  refine h.nonzero i hi ?_
  rw [h.type_result hi (hio ▸ ho), h0]

/-- The kind found is that of the pointee, for a type in the tables. -/
theorem WellFormedModule.kind_iff {pointee storage : Nat} {k : SpvBindingKind}
    (hk : k ≠ .unknown) : (reflectTables is).kind pointee storage = k ↔
      pointee < maxId ∧ KindOf is pointee storage k := by
  have h25 := @WellFormedModule.type_iff spv is h 25 (by omega) pointee
  have h26 := @WellFormedModule.type_iff spv is h 26 (by omega) pointee
  have h27 := @WellFormedModule.type_iff spv is h 27 (by omega) pointee
  have h30 := @WellFormedModule.type_iff spv is h 30 (by omega) pointee
  have hno : ∀ {op : Nat}, op ≠ 25 → op ≠ 27 → 19 ≤ op ∧ op ≤ 33 → IsType is op pointee →
      ¬ ((table (typeWrite 25) is pointee).isSome ∨ (table (typeWrite 27) is pointee).isSome) := by
    intro op hne hne' hop ht hor
    obtain hor | hor := hor
    · exact hne (h.type_unique hop (by omega) ht (h25.1 hor).2)
    · exact hne' (h.type_unique hop (by omega) ht (h27.1 hor).2)
  rw [ReflectTables.kind, reflectTables_eq]
  constructor
  · intro hkind
    split_ifs at hkind with hlim hi hs hst
    · exact absurd hkind.symm hk
    · subst hkind
      obtain hi | hi := hi
      · exact ⟨(h25.1 hi).1, .image (h25.1 hi).2⟩
      · exact ⟨(h27.1 hi).1, .sampledImage (h27.1 hi).2⟩
    · subst hkind
      exact ⟨(h26.1 hs).1, .sampler (h26.1 hs).2⟩
    · subst hkind
      exact ⟨(h30.1 hst.1).1, .storageBuffer (h30.1 hst.1).2 hst.2⟩
    · exact absurd hkind.symm hk
  · intro hkind
    obtain ⟨hlt, hkind⟩ := hkind
    rw [if_neg (Nat.not_le.mpr hlt)]
    cases hkind with
    | image ht => exact if_pos (.inl (h25.2 ⟨hlt, ht⟩))
    | sampledImage ht => exact if_pos (.inr (h27.2 ⟨hlt, ht⟩))
    | sampler ht =>
      exact (if_neg (hno (by decide) (by decide) (by omega) ht)).trans (if_pos (h26.2 ⟨hlt, ht⟩))
    | storageBuffer ht hs =>
      have hsamp : ¬ (table (typeWrite 26) is pointee).isSome := by
        intro hsome
        exact absurd (h.type_unique (by omega) (by omega) (h26.1 hsome).2 ht) (by decide)
      exact ((if_neg (hno (by decide) (by decide) (by omega) ht)).trans (if_neg hsamp)).trans
        (if_pos ⟨h30.2 ⟨hlt, ht⟩, hs⟩)

/-- What is read for a pointer type is its pointee, or 0. -/
theorem WellFormedModule.pointeeAt_cases (ptr : Nat) :
    (ptr < maxId ∧ PointsTo is ptr (pointeeAt (table pointerWrite is) ptr)) ∨
      pointeeAt (table pointerWrite is) ptr = 0 ∧
        ¬ ∃ pointee, ptr < maxId ∧ PointsTo is ptr pointee := by
  rw [pointeeAt]
  by_cases hlt : ptr < maxId
  · rw [if_pos hlt]
    cases hp : table pointerWrite is ptr with
    | some pointee => exact .inl (h.pointer_iff.1 hp)
    | none =>
      refine .inr ⟨rfl, ?_⟩
      intro hex
      obtain ⟨pointee, hpt⟩ := hex
      rw [h.pointer_iff.2 hpt] at hp
      exact absurd hp (by simp)
  · rw [if_neg hlt]
    refine .inr ⟨rfl, ?_⟩
    intro hex
    obtain ⟨pointee, hpt⟩ := hex
    exact hlt hpt.1

theorem WellFormedModule.pointeeAt_eq {ptr pointee : Nat} (hlt : ptr < maxId)
    (hp : PointsTo is ptr pointee) : pointeeAt (table pointerWrite is) ptr = pointee := by
  rw [pointeeAt, if_pos hlt, h.pointer_iff.2 ⟨hlt, hp⟩]
  rfl

/-- What is found at an id is a binding declared there, with all its ids in the tables. -/
theorem WellFormedModule.bindingAt_iff {id : Nat} {b : SpvBinding} :
    (reflectTables is).bindingAt id = some b ↔
      id < maxId ∧ ∃ ptr storage pointee, ptr < maxId ∧ pointee < maxId ∧
        DeclaresBinding is id ptr storage pointee b := by
  rw [ReflectTables.bindingAt]
  have hvar : (reflectTables is).var = table variableWrite is := by rw [reflectTables_eq]
  have hset : (reflectTables is).set = table (decorationWrite 34) is := by rw [reflectTables_eq]
  have hbind : (reflectTables is).binding = table (decorationWrite 33) is := by
    rw [reflectTables_eq]
  have hptr : (reflectTables is).pointee = table pointerWrite is := by rw [reflectTables_eq]
  rw [hvar, hset, hbind, hptr]
  constructor
  · intro hat
    cases hv : table variableWrite is id with
    | none => simp [hv] at hat
    | some v =>
      cases hs : table (decorationWrite 34) is id with
      | none => simp [hv, hs] at hat
      | some set =>
        cases hb : table (decorationWrite 33) is id with
        | none => simp [hv, hs, hb] at hat
        | some binding =>
          simp only [hv, hs, hb] at hat
          split_ifs at hat with hk
          obtain rfl := Option.some_inj.1 hat
          obtain ⟨hlt, hvar⟩ := h.variable_iff.1 hv
          obtain ⟨hpl, hkind⟩ := (h.kind_iff hk).1 rfl
          obtain hp | hp := h.pointeeAt_cases v.1
          · exact ⟨hlt, v.1, v.2, _, hp.1, hpl, hvar, (h.decorated_iff (by simp)).1 hs |>.2,
              (h.decorated_iff (by simp)).1 hb |>.2, hp.2, hkind⟩
          · obtain ⟨op, hop, ht⟩ := hkind.type
            rw [hp.1] at ht
            exact absurd ht (h.type_ne_zero hop)
  · intro hd
    obtain ⟨hlt, ptr, storage, pointee, hptrlt, hpl, hd⟩ := hd
    have hk : b.kind ≠ .unknown := by
      intro hu
      have hkind := hd.kind
      rw [hu] at hkind
      cases hkind
    rw [h.variable_iff.2 ⟨hlt, hd.var⟩, (h.decorated_iff (by simp)).2 ⟨hlt, hd.set⟩,
      (h.decorated_iff (by simp)).2 ⟨hlt, hd.binding⟩]
    simp only [h.pointeeAt_eq hptrlt hd.pointer, (h.kind_iff hk).2 ⟨hpl, hd.kind⟩, if_neg hk]

theorem WellFormedModule.components_ne {pointee comp : Nat} (hc : ComponentsOf is pointee comp) :
    pointee ≠ 0 ∧ comp ≠ 0 := by
  cases hc with
  | float hf =>
    refine ⟨?_, by decide⟩
    intro hz
    rw [hz] at hf
    exact h.type_ne_zero (by omega) hf
  | vector i hi ho ha =>
    have htwo := h.vectors i hi ho
    refine ⟨?_, by omega⟩
    intro hz
    rw [hz] at ha
    exact h.type_ne_zero (by omega) ⟨i, hi, ho, ha⟩

theorem WellFormedModule.components_unique {ptr pointee pointee' comp comp' : Nat}
    (hp : PointsBelow is ptr pointee) (hp' : PointsBelow is ptr pointee')
    (hc : ComponentsOf is pointee comp) (hc' : ComponentsOf is pointee' comp') : comp = comp' := by
  have hsame := (h.pointeeAt_eq hp.1 hp.2.2).symm.trans (h.pointeeAt_eq hp'.1 hp'.2.2)
  subst hsame
  have hread := h.component_iff.2 ⟨hp.2.1, hc⟩
  rw [h.component_iff.2 ⟨hp.2.1, hc'⟩] at hread
  exact (Option.some_inj.1 hread).symm

/-- The components read for a pointer type. -/
theorem WellFormedModule.components_iff {ptr comp : Nat} :
    (inputTables is).components (pointeeAt (table pointerWrite is) ptr) = comp ↔
      (∃ pointee, PointsBelow is ptr pointee ∧ ComponentsOf is pointee comp) ∨
        comp = 4 ∧ ¬ ∃ pointee comp, PointsBelow is ptr pointee ∧ ComponentsOf is pointee comp := by
  have hcomp : (inputTables is).comp = table componentWrite is := by rw [inputTables_eq]
  rw [InputTables.components, hcomp]
  by_cases hex : ∃ pointee comp, PointsBelow is ptr pointee ∧ ComponentsOf is pointee comp
  · obtain ⟨pointee, c, hp, hc⟩ := id hex
    have hread := h.component_iff.2 ⟨hp.2.1, hc⟩
    simp only [h.pointeeAt_eq hp.1 hp.2.2, if_pos hp.2.1, hread, Option.getD_some,
      if_neg (h.components_ne hc).2]
    constructor
    · intro heq
      subst heq
      exact .inl ⟨pointee, hp, hc⟩
    · intro hor
      obtain hother | hnone := hor
      · obtain ⟨pointee', hp', hc'⟩ := hother
        exact h.components_unique hp hp' hc hc'
      · exact absurd hex hnone.2
  · have hzero : (if pointeeAt (table pointerWrite is) ptr < maxId then
        (table componentWrite is (pointeeAt (table pointerWrite is) ptr)).getD 0 else 0) = 0 := by
      by_cases hlt : pointeeAt (table pointerWrite is) ptr < maxId
      · rw [if_pos hlt]
        cases hc : table componentWrite is (pointeeAt (table pointerWrite is) ptr) with
        | none => rfl
        | some c =>
          have hcomp := (h.component_iff.1 hc).2
          obtain hp | hp := h.pointeeAt_cases ptr
          · exact absurd ⟨_, c, ⟨hp.1, hlt, hp.2⟩, hcomp⟩ hex
          · exact absurd hp.1 (h.components_ne hcomp).1
      · rw [if_neg hlt]
    simp only [hzero, if_true]
    constructor
    · intro heq
      exact .inr ⟨heq.symm, hex⟩
    · intro hor
      obtain hother | hnone := hor
      · obtain ⟨pointee, hp, hc⟩ := hother
        exact absurd ⟨pointee, comp, hp, hc⟩ hex
      · exact hnone.1.symm

/-- What is found at an id is an input declared there. -/
theorem WellFormedModule.inputAt_iff {id : Nat} {a : Nat × Nat} :
    (inputTables is).inputAt id = some a ↔ id < maxId ∧ ∃ ptr, DeclaresInput is id ptr a := by
  have hvar : (inputTables is).var = table variableWrite is := by rw [inputTables_eq]
  have hloc : (inputTables is).loc = table (decorationWrite 30) is := by rw [inputTables_eq]
  have hptr : (inputTables is).pointee = table pointerWrite is := by rw [inputTables_eq]
  rw [InputTables.inputAt, hvar, hloc, hptr]
  constructor
  · intro hat
    cases hv : table variableWrite is id with
    | none => simp [hv] at hat
    | some v =>
      cases hl : table (decorationWrite 30) is id with
      | none => simp [hv, hl] at hat
      | some loc =>
        simp only [hv, hl] at hat
        split_ifs at hat with hin
        obtain rfl := Option.some_inj.1 hat
        obtain ⟨hlt, hvar⟩ := h.variable_iff.1 hv
        rw [hin] at hvar
        exact ⟨hlt, v.1, hvar, ((h.decorated_iff (by simp)).1 hl).2, h.components_iff.1 rfl⟩
  · intro hd
    obtain ⟨hlt, ptr, hd⟩ := hd
    rw [h.variable_iff.2 ⟨hlt, hd.var⟩, (h.decorated_iff (by simp)).2 ⟨hlt, hd.loc⟩]
    simp only [if_true, h.components_iff.2 hd.comp]

end wellformed

/- What a reflection returns and writes, against what is declared under each id. -/

/-- The count of all, and the first `cap` of them by id, sorted. -/
def ReflectsFirst {β : Type} (declares : Nat → β → Prop) (after : β → β → Prop) (cap : Nat)
    (r : Nat × List β) : Prop :=
  ∃ found : List (Nat × β), (found.map Prod.fst).Pairwise (· < ·) ∧
    (∀ id b, (id, b) ∈ found ↔ declares id b) ∧ r.1 = found.length ∧
    r.2.Perm ((found.take cap).map Prod.snd) ∧ r.2.Pairwise fun a b => ¬ after a b

/-- The count of all, and the smallest `cap` of them, sorted. -/
def ReflectsSmallest {β : Type} (declares : Nat → β → Prop) (after : β → β → Prop) (cap : Nat)
    (r : Nat × List β) : Prop :=
  ∃ (found : List (Nat × β)) (rest : List β), (found.map Prod.fst).Pairwise (· < ·) ∧
    (∀ id b, (id, b) ∈ found ↔ declares id b) ∧ r.1 = found.length ∧
    (r.2++rest).Perm (found.map Prod.snd) ∧ r.2.length = min found.length cap ∧
    (r.2.Pairwise fun a b => ¬ after a b) ∧ ∀ a ∈ r.2, ∀ b ∈ rest, ¬ after a b

/-- Where the cap is no smaller than the count, nothing is left out. -/
theorem ReflectsFirst.smallest {β : Type} {declares : Nat → β → Prop} {after : β → β → Prop}
    {cap : Nat} {r : Nat × List β} (h : ReflectsFirst declares after cap r) (hcap : r.1 ≤ cap) :
    ReflectsSmallest declares after cap r := by
  obtain ⟨found, hids, hiff, hcount, hperm, hsorted⟩ := h
  rw [hcount] at hcap
  rw [List.take_of_length_le hcap] at hperm
  refine ⟨found, [], hids, hiff, hcount, ?_, ?_, hsorted, ?_⟩
  · rw [List.append_nil]
    exact hperm
  · rw [hperm.length_eq, List.length_map, Nat.min_eq_left hcap]
  · intro a _ b hb
    exact absurd hb List.not_mem_nil

theorem reflectsFirst_sort {β : Type} {after : β → β → Prop} [DecidableRel after] (ho : Order after)
    {atId : Nat → Option β} {declares : Nat → β → Prop}
    (hat : ∀ id b, id < maxId ∧ atId id = some b ↔ declares id b) (cap : Nat) :
    ReflectsFirst declares after cap (((List.range maxId).filterMap atId).length,
      sort after (((List.range maxId).filterMap atId).take cap)) := by
  have hsnd : ((List.range maxId).filterMap fun id => (atId id).map fun b => (id, b)).map Prod.snd =
      (List.range maxId).filterMap atId := by
    rw [List.map_filterMap]
    congr 1
    funext id
    cases atId id <;> rfl
  have hfst : ∀ l : List Nat, ((l.filterMap fun id => (atId id).map fun b => (id, b)).map
      Prod.fst).Sublist l := by
    intro l
    induction l with
    | nil => exact List.Sublist.refl _
    | cons id l ih =>
      cases hid : atId id with
      | none =>
        rw [List.filterMap_cons_none (by rw [hid]; rfl)]
        exact ih.cons id
      | some b =>
        rw [List.filterMap_cons_some (by rw [hid]; rfl), List.map_cons]
        exact ih.cons_cons id
  refine ⟨(List.range maxId).filterMap fun id => (atId id).map fun b => (id, b),
    List.Pairwise.sublist (hfst _) List.pairwise_lt_range, ?_, ?_, ?_, sort_sorted ho _⟩
  · intro id b
    rw [← hat, List.mem_filterMap]
    constructor
    · intro hex
      obtain ⟨id', hid', hmap⟩ := hex
      obtain ⟨b', hb', hpair⟩ := Option.map_eq_some_iff.mp hmap
      obtain ⟨rfl, rfl⟩ := Prod.mk.inj hpair
      exact ⟨List.mem_range.mp hid', hb'⟩
    · intro hd
      exact ⟨id, List.mem_range.mpr hd.1, by rw [hd.2]; rfl⟩
  · rw [← hsnd, List.length_map]
  · rw [List.map_take, hsnd]
    exact sort_perm after _

theorem bindingAfter_order : Order bindingAfter where
  asymm x y := by
    simp only [bindingAfter]
    omega
  trans x y z := by
    simp only [bindingAfter]
    omega

theorem inputAfter_order : Order inputAfter where
  asymm x y := by
    simp only [inputAfter]
    omega
  trans x y z := by
    simp only [inputAfter]
    omega

end Lagfx
