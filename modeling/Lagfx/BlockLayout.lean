import Lagfx.Lib.Alignment
import Lagfx.Lib.Traversal
import Lagfx.ShaderInterface
import Lagfx.TypeRecursion

/-! The layout that `translate_function.c` decorates a buffer's Block with, and all that the Block
contains, against the data layout of LLVM. -/
namespace Lagfx
open Alignment Traversal Relation Descent

/- What is decorated. -/

/-- The struct of a Block, the runtime array of elements in one, or what `emit_air_type` emitted
for a type of the module. -/
inductive LayoutTarget where
  | block
  | runtimeArray
  | type (ty : Nat)
deriving DecidableEq, Repr

inductive AirDecoration where
  | memberOffset (target : LayoutTarget) (member offset : Nat)
  | arrayStride (target : LayoutTarget) (stride : Nat)
deriving DecidableEq, Repr

def AirDecoration.target : AirDecoration → LayoutTarget
  | .memberOffset target _ _ => target
  | .arrayStride target _ => target

/-- The decoration on ids. -/
def AirDecoration.onIds (ids : LayoutTarget → Nat) : AirDecoration → LayoutDecoration
  | .memberOffset target member offset => .memberOffset (ids target) member offset
  | .arrayStride target stride => .arrayStride (ids target) stride

namespace TypeTable
variable (t : TypeTable)

/-- The members of a struct, each behind its offset, as far as they have a layout. -/
def memberEdges (target : LayoutTarget) : List Nat → Nat → Nat → List (List AirDecoration × Nat)
  | [], _, _ => []
  | f::fs, i, off =>
    match t.sizeAlign f with
    | none => []
    | some e =>
      let off := roundUp off e.2
      ([.memberOffset target i off], f)::memberEdges target fs (i+1) (u32 (off+e.1))

/-- One step of `decorate_nested_layout`. -/
def layoutGraph : Traversal.Graph Nat AirDecoration := fun ty =>
  (t.types[ty]?).map fun x =>
    match x.kind with
    | .structAnon | .structNamed => t.memberEdges (.type ty) (x.op.drop 1) 0 0
    | .array =>
      if x.op.length < 2 then []
      else
        let elem := x.op.getD 1 0
        [(match t.sizeAlign elem with
          | none => []
          | some e => [.arrayStride (.type ty) (roundUp e.1 e.2)], elem)]
    | _ => []

/-- A full list takes no more types. -/
def markVisited (visited : List Nat) (ty : Nat) : List Nat :=
  if visited.length < maxVisited then visited++[ty] else visited

/-- `decorate_nested_layout` on types. -/
def nestedLayout : Nat → Nat → List Nat → Option (List Nat × List AirDecoration) :=
  visit t.layoutGraph markVisited

/-- `emit_type_struct_block` and `emit_type_nonstruct_block` for a pointee without a Block so far,
to a depth. -/
def blockLayout (depth ty : Nat) : Option (List AirDecoration) :=
  match t.types[ty]? with
  | none => none
  | some x =>
    if x.kind.isStruct = true then
      if t.blockFields x = true then
        (walk (t.nestedLayout depth) (t.memberEdges .block (x.op.drop 1) 0 0) [ty]).map Prod.snd
      else none
    else if t.bufferArgNonstructPointee ty ≠ 0 then
      (t.sizeAlign ty).bind fun e => (t.nestedLayout depth ty []).map fun r =>
        r.2++[.arrayStride .runtimeArray (roundUp e.1 e.2), .memberOffset .block 0 0]
    else none

end TypeTable

/- The data layout of LLVM. -/

/-- The least power of two from `n` on. -/
def nextPower (n : Nat) : Nat := if n ≤ 1 then 1 else 2^((n-1).log2+1)

def intLayout (width : Nat) : Layout :=
  let align := if width ≤ 8 then 1 else if width ≤ 16 then 2 else if width ≤ 32 then 4 else 8
  ⟨alignUp ((width+7)/8) align, align⟩

/-- Vectors are aligned to their size, which is a power of two. -/
def vectorLayout (lanes : Nat) (e : Layout) : Layout :=
  ⟨nextPower (lanes*e.size), nextPower (lanes*e.size)⟩

/-- A packed struct has no padding. -/
def packMembers (packed : Bool) (es : List Layout) : List Layout :=
  if packed = true then es.map fun e => { e with align := 1 } else es

def structLayout (packed : Bool) (es : List Layout) : Layout :=
  let ms := packMembers packed es
  ⟨alignUp (ending 0 ms) (maxAlign ms), maxAlign ms⟩

def plainWidths : List Nat := [1, 2, 3, 4, 5, 6, 7, 8, 16, 32, 64]

def XlateType.PlainScalar (x : XlateType) : Prop :=
  x.kind = .float ∨ x.kind = .half ∨ x.kind = .double ∨
    (x.kind = .integer ∧ x.op.getD 0 32 ∈ plainWidths)

/-- The packed flag stands before the fields. -/
def XlateType.packed (x : XlateType) : Bool := decide (x.op.getD 0 0 ≠ 0)

/-- The allocation size and the alignment of a type, to a depth. -/
def dataLayout (types : List XlateType) : Nat → Nat → Layout
  | 0, _ => ⟨0, 1⟩
  | depth+1, ty =>
    match types[ty]? with
    | none => ⟨0, 1⟩
    | some x => match x.kind with
      | .float => ⟨4, 4⟩
      | .half => ⟨2, 2⟩
      | .double => ⟨8, 8⟩
      | .integer => intLayout (x.op.getD 0 32)
      | .vector => vectorLayout (x.op.getD 0 4) (dataLayout types depth (x.op.getD 1 0))
      | .array =>
        let e := dataLayout types depth (x.op.getD 1 0)
        ⟨x.op.getD 0 0*e.size, e.align⟩
      | .structAnon | .structNamed =>
        structLayout x.packed ((x.op.drop 1).map (dataLayout types depth))
      | _ => ⟨0, 1⟩

namespace TypeTable
variable (t : TypeTable)

def llvmLayout (ty : Nat) : Layout := dataLayout t.types t.depth ty

/-- Where LLVM places the members of a struct. -/
def llvmOffsets (x : XlateType) : List Nat :=
  offsets 0 (packMembers x.packed ((x.op.drop 1).map t.llvmLayout))

/- The claim about a Block. -/

/-- The operands of the OpTypeStruct. -/
def structMembers (x : XlateType) : LayoutTarget → List Nat
  | .block => x.op.drop 1
  | _ => x.emitOperands

/-- The decorations of one aggregate, and the sizes behind its offsets, are those of LLVM. -/
def AggregateRight (D : List AirDecoration) (target : LayoutTarget) (x : XlateType) : Prop :=
  match x.kind with
  | .structAnon | .structNamed =>
    structMembers x target = x.op.drop 1 ∧
      (∀ i v, .memberOffset target i v ∈ D ↔ (t.llvmOffsets x)[i]? = some v) ∧
      ∀ f ∈ (x.op.drop 1).dropLast, (t.sizeAlign f).map Prod.fst = some (t.llvmLayout f).size
  | .array => ∀ v, .arrayStride target v ∈ D ↔ v = (t.llvmLayout (x.op.getD 1 0)).size
  | _ => True

/-- What a type contains: the fields of a struct and the elements of an array. -/
def Contains (ty f : Nat) : Prop :=
  ∃ x, t.types[ty]? = some x ∧ (x.kind.isStruct = true ∧ f ∈ x.op.drop 1 ∨
    x.kind = .array ∧ f = x.op.getD 1 0)

/-- Of the type and all it contains, to any depth. -/
def Throughout (ty : Nat) (Q : Nat → XlateType → Prop) : Prop :=
  ∀ u y, ReflTransGen t.Contains ty u → t.types[u]? = some y → Q u y

/-- The Block of the pointee, and every aggregate reachable from it. -/
def BlockRight (D : List AirDecoration) (ty : Nat) : Prop :=
  ∃ x, t.types[ty]? = some x ∧
    if x.kind.isStruct = true then
      t.AggregateRight D .block x ∧
        ∀ f ∈ x.op.drop 1, t.Throughout f fun u y => t.AggregateRight D (.type u) y
    else
      (∀ v, .arrayStride .runtimeArray v ∈ D ↔ v = (t.llvmLayout ty).size) ∧
        (∀ i v, .memberOffset .block i v ∈ D ↔ i = 0 ∧ v = 0) ∧
        t.Throughout ty fun u y => t.AggregateRight D (.type u) y

/- When it holds. -/

/-- A type that the code has a rule for: integers of the usual widths, vectors of two to four
scalars, structs that are not packed. -/
def Plain (x : XlateType) : Prop :=
  x.PlainScalar ∨
    (x.kind = .vector ∧ x.op.getD 0 4 ∈ [2, 3, 4] ∧
      ∃ e, t.types[x.op.getD 1 0]? = some e ∧ e.PlainScalar) ∨
    x.kind = .array ∨ x.kind.isStruct = true ∧ x.packed = false

def PlainTree (ty : Nat) : Prop := t.Throughout ty fun _ x => t.Plain x

def IsThreeLanes (ty : Nat) : Prop :=
  ∃ x, t.types[ty]? = some x ∧ x.kind = .vector ∧ x.op.getD 0 4 = 3

/-- No vector of three lanes before another member, nothing from 2^32 on, and sixteen members at
most where these are cut off. -/
def AggregateFits (target : LayoutTarget) (x : XlateType) : Prop :=
  match x.kind with
  | .structAnon | .structNamed =>
    (target ≠ .block → (x.op.drop 1).length ≤ maxStructFields) ∧
      (∀ v ∈ t.llvmOffsets x, v < 2^32) ∧
      ∀ f ∈ (x.op.drop 1).dropLast, ¬t.IsThreeLanes f ∧ (t.llvmLayout f).size < 2^32
  | .array => (t.llvmLayout (x.op.getD 1 0)).size < 2^32
  | _ => True

def BlockFits (ty : Nat) : Prop :=
  ∃ x, t.types[ty]? = some x ∧
    if x.kind.isStruct = true then
      t.AggregateFits .block x ∧
        ∀ f ∈ x.op.drop 1, t.Throughout f fun u y => t.AggregateFits (.type u) y
    else
      (t.llvmLayout ty).size < 2^32 ∧
        t.Throughout ty fun u y => t.AggregateFits (.type u) y

end TypeTable

/- Rounding and placing in 32 bits. -/

theorem power_dvd {a : Nat} (ha : ∃ j ≤ 5, a = 2^j) : 0 < a ∧ a ∣ 2^32 := by
  obtain ⟨j, hj, rfl⟩ := ha
  exact ⟨Nat.two_pow_pos j, Nat.pow_dvd_pow 2 (by omega)⟩

theorem roundUp_eq {x a : Nat} (ha : ∃ j ≤ 5, a = 2^j) (h : alignUp x a < 2^32) :
    roundUp x a = alignUp x a := by
  obtain ⟨hpos, hdvd⟩ := power_dvd ha
  have hlt : x+a-1 < 2^32 := by
    by_contra hge
    have hle := Nat.mul_le_mul_right a (Nat.div_le_div_right (c := a) (not_lt.1 hge))
    rw [Nat.div_mul_cancel hdvd] at hle
    exact absurd (lt_of_le_of_lt hle h) (lt_irrefl _)
  rw [roundUp, if_neg (by omega), u32, Nat.mod_eq_of_lt hlt]
  rfl

theorem roundUp_lt {x : Nat} (hx : x < 2^32) (a : Nat) : roundUp x a < 2^32 := by
  rw [roundUp]
  split_ifs
  · exact hx
  · exact lt_of_le_of_lt (Nat.div_mul_le_self _ a) (Nat.mod_lt _ (Nat.two_pow_pos 32))

/-- The offsets of the loops over the fields. -/
def codeOffsets : Nat → List (Nat × Nat) → List Nat
  | _, [] => []
  | off, e::es => roundUp off e.2::codeOffsets (u32 (roundUp off e.2+e.1)) es

theorem codeOffsets_lt (es : List (Nat × Nat)) {off : Nat} (hoff : off < 2^32) :
    ∀ v ∈ codeOffsets off es, v < 2^32 := by
  induction es generalizing off with
  | nil => simp [codeOffsets]
  | cons e es ih =>
    rw [codeOffsets, List.forall_mem_cons]
    exact ⟨roundUp_lt hoff e.2, ih (Nat.mod_lt _ (Nat.two_pow_pos 32))⟩

section
variable {c : Nat → Nat × Nat} {L : Nat → Layout}

/-- The sizes and alignments of the members agree, but for the size of the last one. -/
structure MembersAgree (c : Nat → Nat × Nat) (L : Nat → Layout) (fs : List Nat) : Prop where
  align : ∀ f ∈ fs, (c f).2 = (L f).align
  whole : ∀ f ∈ fs, (L f).Whole 5
  size : ∀ f ∈ fs.dropLast, (c f).1 = (L f).size

theorem MembersAgree.tail {f : Nat} {fs : List Nat} (h : MembersAgree c L (f::fs)) :
    MembersAgree c L fs := by
  refine ⟨fun g hg => h.align g (List.mem_cons_of_mem f hg),
    fun g hg => h.whole g (List.mem_cons_of_mem f hg), fun g hg => h.size g ?_⟩
  cases fs with
  | nil => cases hg
  | cons g' fs => exact List.mem_cons_of_mem f hg

theorem MembersAgree.head {f g : Nat} {fs : List Nat} (h : MembersAgree c L (f::g::fs)) :
    (c f).1 = (L f).size := h.size f List.mem_cons_self

/-- An offset below 2^32 is behind one below 2^32. -/
theorem offset_lt {o : Nat} {f : Nat} {fs : List Nat} (hpos : 0 < (L f).align)
    (h : ∀ v ∈ offsets o ((f::fs).map L), v < 2^32) : o < 2^32 :=
  lt_of_le_of_lt (le_alignUp hpos o) (h _ List.mem_cons_self)

theorem codeOffsets_eq {fs : List Nat} (h : MembersAgree c L fs) {o : Nat}
    (hlt : ∀ v ∈ offsets o (fs.map L), v < 2^32) :
    codeOffsets o (fs.map c) = offsets o (fs.map L) := by
  induction fs generalizing o with
  | nil => rfl
  | cons f fs ih =>
    have hwhole := h.whole f List.mem_cons_self
    have hplace : roundUp o (c f).2 = place o (L f) := by
      rw [h.align f List.mem_cons_self]
      exact roundUp_eq hwhole.power (hlt _ List.mem_cons_self)
    have hrest : ∀ v ∈ offsets (place o (L f)+(L f).size) (fs.map L), v < 2^32 :=
      fun v hv => hlt v (List.mem_cons_of_mem _ hv)
    rw [List.map_cons, List.map_cons, codeOffsets, offsets, hplace]
    cases fs with
    | nil => rfl
    | cons g fs =>
      have hnext := offset_lt (h.whole g (by simp)).pos hrest
      rw [h.head, u32, Nat.mod_eq_of_lt hnext, ih h.tail hrest]

theorem layoutFold_align {fs : List Nat} (h : ∀ f ∈ fs, (c f).2 = (L f).align) (a : Nat × Nat) :
    ((fs.map c).foldl layoutField a).2 = (fs.map L).foldl (fun a e => max a e.align) a.2 := by
  induction fs generalizing a with
  | nil => rfl
  | cons f fs ih =>
    rw [List.map_cons, List.map_cons, List.foldl_cons, List.foldl_cons,
      ih (fun g hg => h g (List.mem_cons_of_mem f hg)), layoutField, h f List.mem_cons_self]

theorem layoutFold_lt (es : List (Nat × Nat)) {a : Nat × Nat} (ha : a.1 < 2^32) :
    (es.foldl layoutField a).1 < 2^32 := by
  induction es generalizing a with
  | nil => exact ha
  | cons e es ih => exact ih (Nat.mod_lt _ (Nat.two_pow_pos 32))

/-- The size of a struct, the padding of the last member being that of the struct. -/
theorem layoutFold_size {fs : List Nat} (h : MembersAgree c L fs)
    (hlast : ∀ f ∈ fs, (L f).size < 2^32 → alignUp (c f).1 (L f).align = (L f).size) {A : Nat}
    (hA : ∃ j ≤ 5, A = 2^j) (hdvd : ∀ f ∈ fs, (L f).align ∣ A) (a : Nat × Nat)
    (hlt : ∀ v ∈ offsets a.1 (fs.map L), v < 2^32)
    (hend : alignUp (ending a.1 (fs.map L)) A < 2^32) :
    roundUp ((fs.map c).foldl layoutField a).1 A = alignUp (ending a.1 (fs.map L)) A := by
  induction fs generalizing a with
  | nil => exact roundUp_eq hA hend
  | cons f fs ih =>
    have hwhole := h.whole f List.mem_cons_self
    have hplace : roundUp a.1 (c f).2 = place a.1 (L f) := by
      rw [h.align f List.mem_cons_self]
      exact roundUp_eq hwhole.power (hlt _ List.mem_cons_self)
    have hrest : ∀ v ∈ offsets (place a.1 (L f)+(L f).size) (fs.map L), v < 2^32 :=
      fun v hv => hlt v (List.mem_cons_of_mem _ hv)
    have hApos := (power_dvd hA).1
    rw [List.map_cons, List.map_cons, List.foldl_cons, ending]
    rw [List.map_cons, ending] at hend
    cases fs with
    | nil =>
      have hsize : (L f).size < 2^32 :=
        lt_of_le_of_lt ((Nat.le_add_left _ _).trans (le_alignUp hApos _)) hend
      have hsum : place a.1 (L f)+(L f).size =
          alignUp (place a.1 (L f)+(c f).1) (L f).align := by
        rw [← hlast f List.mem_cons_self hsize]
        exact add_alignUp hwhole.pos (dvd_alignUp _ _) _
      have htotal : alignUp (place a.1 (L f)+(L f).size) A =
          alignUp (place a.1 (L f)+(c f).1) A := by
        rw [hsum]
        exact alignUp_alignUp hwhole.pos hApos (hdvd f List.mem_cons_self) _
      have hcode : place a.1 (L f)+(c f).1 < 2^32 :=
        lt_of_le_of_lt (le_alignUp hApos _) (htotal ▸ hend)
      change roundUp (u32 (roundUp a.1 (c f).2+(c f).1)) A =
        alignUp (place a.1 (L f)+(L f).size) A
      rw [hplace, u32, Nat.mod_eq_of_lt hcode, htotal]
      exact roundUp_eq hA (htotal ▸ hend)
    | cons g fs =>
      have hnext := offset_lt (h.whole g (by simp)).pos hrest
      have hfield : (layoutField a (c f)).1 = place a.1 (L f)+(L f).size := by
        rw [layoutField, hplace, h.head, u32, Nat.mod_eq_of_lt hnext]
      have hstep := ih h.tail (fun f' hf' => hlast f' (List.mem_cons_of_mem f hf'))
        (fun f' hf' => hdvd f' (List.mem_cons_of_mem f hf')) (layoutField a (c f))
      rw [hfield] at hstep
      exact hstep hrest hend

end

/- The sizes of the code by what a type contains. -/

namespace TypeTable
variable {t : TypeTable}

theorem sizeAlign_of {n ty : Nat} {o : Option (Nat × Nat)}
    (h : airTypeSizeAlign t.types n ty = some o) : t.sizeAlign ty = o := by
  by_cases hty : ty < t.types.length
  · obtain ⟨o', ho'⟩ := Option.ne_none_iff_exists'.1 (t.ends ty hty)
    have hdeep : Deepens fun n => airTypeSizeAlign t.types n ty := airTypeSizeAlign_deepens ty
    have hn := hdeep.le (le_max_left n t.depth) o h
    have hd := hdeep.le (le_max_right n t.depth) o' ho'
    rw [sizeAlign, ho', Option.some.inj (hn.symm.trans hd)]
    rfl
  · have hnone : t.types[ty]? = none := List.getElem?_eq_none (not_lt.1 hty)
    have hempty : ∀ m o, airTypeSizeAlign t.types m ty = some o → o = none := by
      intro m o hm
      cases m with
      | zero => cases hm
      | succ m =>
        rw [airTypeSizeAlign, hnone] at hm
        exact (Option.some.inj hm).symm
    rw [hempty n o h, sizeAlign]
    cases hd : airTypeSizeAlign t.types t.depth ty with
    | none => rfl
    | some o' => rw [hempty t.depth o' hd]; rfl

/-- The depth of a table is enough for all its types, and so for what they contain. -/
theorem depth_enough {ty : Nat} (hty : ty < t.types.length) (f : Nat) :
    airTypeSizeAlign t.types t.depth f = some (t.sizeAlign f) := by
  by_cases hf : f < t.types.length
  · obtain ⟨o, ho⟩ := Option.ne_none_iff_exists'.1 (t.ends f hf)
    rw [ho, sizeAlign_of ho]
  · have hnone : t.types[f]? = none := List.getElem?_eq_none (not_lt.1 hf)
    have hpos : t.depth ≠ 0 := by
      intro hzero
      have hends := t.ends ty hty
      rw [hzero] at hends
      exact hends rfl
    obtain ⟨n, hn⟩ := Nat.exists_eq_succ_of_ne_zero hpos
    have h : airTypeSizeAlign t.types t.depth f = some none := by
      rw [hn, airTypeSizeAlign, hnone]
    rw [h, sizeAlign_of h]

theorem sizeAlign_step {ty : Nat} {x : XlateType} (hx : t.types[ty]? = some x) :
    airTypeSizeAlign t.types (t.depth+1) ty = some (t.sizeAlign ty) := by
  have hty := (List.getElem?_eq_some_iff.1 hx).1
  exact airTypeSizeAlign_deepens ty t.depth _ (depth_enough hty ty)

variable {ty : Nat} {x : XlateType}

theorem sizeAlign_vector (hx : t.types[ty]? = some x) (hkind : x.kind = .vector) :
    t.sizeAlign ty = (t.sizeAlign (x.op.getD 1 0)).map fun e =>
      (u32 (e.1*x.op.getD 0 4), if x.op.getD 0 4 = 2 then u32 (e.1*2) else u32 (e.1*4)) := by
  have h := sizeAlign_step hx
  have hty := (List.getElem?_eq_some_iff.1 hx).1
  rw [airTypeSizeAlign, hx] at h
  simp only [hkind, depth_enough hty, Option.map_some, Option.some.injEq] at h
  exact h.symm

theorem sizeAlign_array (hx : t.types[ty]? = some x) (hkind : x.kind = .array) :
    t.sizeAlign ty = (t.sizeAlign (x.op.getD 1 0)).map fun e =>
      (u32 (roundUp e.1 e.2*x.op.getD 0 0), e.2) := by
  have h := sizeAlign_step hx
  have hty := (List.getElem?_eq_some_iff.1 hx).1
  rw [airTypeSizeAlign, hx] at h
  simp only [hkind, depth_enough hty, Option.map_some, Option.some.injEq] at h
  exact h.symm

theorem sizeAlign_struct (hx : t.types[ty]? = some x) (hkind : x.kind.isStruct = true)
    {c : Nat → Nat × Nat} (hc : ∀ f ∈ x.op.drop 1, t.sizeAlign f = some (c f)) :
    t.sizeAlign ty =
      some (roundUp (((x.op.drop 1).map c).foldl layoutField (0, 1)).1
          (((x.op.drop 1).map c).foldl layoutField (0, 1)).2,
        (((x.op.drop 1).map c).foldl layoutField (0, 1)).2) := by
  have h := sizeAlign_step hx
  have hty := (List.getElem?_eq_some_iff.1 hx).1
  have hfold : ∀ (fs : List Nat) (a : Nat × Nat), (∀ f ∈ fs, t.sizeAlign f = some (c f)) →
      fs.foldlM (sizeField t.types t.depth) (some a) = some (some ((fs.map c).foldl layoutField a)) := by
    intro fs
    induction fs with
    | nil => exact fun _ _ => rfl
    | cons f fs ih =>
      intro a hfs
      have hfield : sizeField t.types t.depth (some a) f = some (some (layoutField a (c f))) := by
        rw [sizeField, depth_enough hty, hfs f List.mem_cons_self]
        rfl
      rw [List.foldlM_cons, hfield, List.map_cons, List.foldl_cons]
      exact ih _ fun f' hf' => hfs f' (List.mem_cons_of_mem f hf')
  rw [airTypeSizeAlign_struct hx hkind, hfold _ _ hc] at h
  exact (Option.some.inj h).symm

theorem sizeAlign_isSome_iff {ty : Nat} : (t.sizeAlign ty).isSome = true ↔ HasLayout t.types ty := by
  by_cases hty : ty < t.types.length
  · exact airTypeSizeAlign_layout (depth_enough hty ty)
  · have hnone : t.types[ty]? = none := List.getElem?_eq_none (not_lt.1 hty)
    have hsize : t.sizeAlign ty = none := by
      rw [sizeAlign]
      cases t.depth with
      | zero => rfl
      | succ n =>
        rw [airTypeSizeAlign, hnone]
        rfl
    rw [hsize]
    refine iff_of_false Bool.false_ne_true fun hl => ?_
    cases hl with
    | scalar hty' => cases hnone.symm.trans hty'
    | element hty' => cases hnone.symm.trans hty'
    | fields hty' => cases hnone.symm.trans hty'

/- The layout of LLVM likewise. -/

theorem hasLayout_part {ty f : Nat} {x : XlateType} (h : HasLayout t.types ty)
    (hx : t.types[ty]? = some x)
    (hf : (x.kind = .vector ∨ x.kind = .array) ∧ f = x.op.getD 1 0 ∨
      x.kind.isStruct = true ∧ f ∈ x.op.drop 1) : HasLayout t.types f := by
  cases h with
  | scalar hty hkind =>
    obtain rfl := Option.some.inj (hx.symm.trans hty)
    obtain ⟨hk | hk, -⟩ | ⟨hs, -⟩ := hf
    · simp [hk] at hkind
    · simp [hk] at hkind
    · obtain hk | hk := isStruct_iff.1 hs <;> simp [hk] at hkind
  | element hty hkind helem =>
    obtain rfl := Option.some.inj (hx.symm.trans hty)
    obtain ⟨-, rfl⟩ | ⟨hs, -⟩ := hf
    · exact helem
    · obtain hk | hk := isStruct_iff.1 hs <;> simp [hk] at hkind
  | fields hty hkind hfields =>
    obtain rfl := Option.some.inj (hx.symm.trans hty)
    obtain ⟨hk | hk, -⟩ | ⟨-, hf⟩ := hf
    · simp [hk, AirTypeKind.isStruct] at hkind
    · simp [hk, AirTypeKind.isStruct] at hkind
    · exact hfields f hf

/-- One more level than the code needs changes nothing. -/
theorem dataLayout_succ (n : Nat) : ∀ ty, HasLayout t.types ty →
    (airTypeSizeAlign t.types n ty).isSome = true →
      dataLayout t.types (n+1) ty = dataLayout t.types n ty := by
  induction n with
  | zero =>
    intro ty _ h
    cases h
  | succ n ih =>
    intro ty hl h
    rw [dataLayout, dataLayout]
    cases hx : t.types[ty]? with
    | none => rfl
    | some x =>
      have helem : x.kind = .vector ∨ x.kind = .array →
          dataLayout t.types (n+1) (x.op.getD 1 0) = dataLayout t.types n (x.op.getD 1 0) := by
        intro hk
        have hpart : HasLayout t.types (x.op.getD 1 0) := hasLayout_part hl hx (Or.inl ⟨hk, rfl⟩)
        exact ih _ hpart (airTypeSizeAlign_follows h ⟨x, hx, Or.inl ⟨hk, rfl⟩⟩)
      have hfields : x.kind.isStruct = true → (x.op.drop 1).map (dataLayout t.types (n+1)) =
          (x.op.drop 1).map (dataLayout t.types n) := by
        intro hs
        refine List.map_congr_left fun f hf => ?_
        have hall : ∀ b ∈ x.op.drop 1, HasLayout t.types b := fun b hb =>
          hasLayout_part hl hx (Or.inr ⟨hs, hb⟩)
        obtain ⟨before, after, hsplit⟩ := List.append_of_mem hf
        have hbefore : ∀ b ∈ before, HasLayout t.types b := fun b hb =>
          hall b (hsplit ▸ List.mem_append_left _ hb)
        exact ih f (hall f hf)
          (airTypeSizeAlign_follows h ⟨x, hx, Or.inr ⟨hs, before, after, hsplit, hbefore⟩⟩)
      cases hk : x.kind with
      | vector => simp only [hk, helem (Or.inl hk)]
      | array => simp only [hk, helem (Or.inr hk)]
      | structAnon => simp only [hk, hfields (by rw [hk]; rfl)]
      | structNamed => simp only [hk, hfields (by rw [hk]; rfl)]
      | _ => simp only [hk]

/-- The layout of a type by those of its parts. -/
theorem llvmLayout_step {ty : Nat} {x : XlateType} (hx : t.types[ty]? = some x)
    (hl : HasLayout t.types ty) :
    t.llvmLayout ty = match x.kind with
      | .float => ⟨4, 4⟩
      | .half => ⟨2, 2⟩
      | .double => ⟨8, 8⟩
      | .integer => intLayout (x.op.getD 0 32)
      | .vector => vectorLayout (x.op.getD 0 4) (t.llvmLayout (x.op.getD 1 0))
      | .array => ⟨x.op.getD 0 0*(t.llvmLayout (x.op.getD 1 0)).size,
          (t.llvmLayout (x.op.getD 1 0)).align⟩
      | .structAnon | .structNamed => structLayout x.packed ((x.op.drop 1).map t.llvmLayout)
      | _ => ⟨0, 1⟩ := by
  have hty := (List.getElem?_eq_some_iff.1 hx).1
  have hsome : (airTypeSizeAlign t.types t.depth ty).isSome = true := by
    rw [depth_enough hty ty]
    rfl
  rw [llvmLayout, ← dataLayout_succ t.depth ty hl hsome, dataLayout, hx]
  rfl

/- Where the sizes agree. -/

theorem plainScalar_layout {ty : Nat} {x : XlateType} (hx : t.types[ty]? = some x)
    (hplain : x.PlainScalar) :
    ∃ j ≤ 3, t.sizeAlign ty = some (2^j, 2^j) ∧ t.llvmLayout ty = ⟨2^j, 2^j⟩ := by
  have hkind : x.kind = .float ∨ x.kind = .half ∨ x.kind = .double ∨ x.kind = .integer := by
    obtain h | h | h | h := hplain
    · exact Or.inl h
    · exact Or.inr (Or.inl h)
    · exact Or.inr (Or.inr (Or.inl h))
    · exact Or.inr (Or.inr (Or.inr h.1))
  have hsize := sizeAlign_step hx
  have hllvm := llvmLayout_step hx (.scalar hx hkind)
  rw [airTypeSizeAlign, hx] at hsize
  obtain h | h | h | ⟨h, hw⟩ := hplain
  · simp only [h] at hsize hllvm
    exact ⟨2, by decide, (Option.some.inj hsize).symm, hllvm⟩
  · simp only [h] at hsize hllvm
    exact ⟨1, by decide, (Option.some.inj hsize).symm, hllvm⟩
  · simp only [h] at hsize hllvm
    exact ⟨3, by decide, (Option.some.inj hsize).symm, hllvm⟩
  · have hwidth : ∀ w ∈ plainWidths, ∃ j ≤ 3, max (w/8) 1 = 2^j ∧ intLayout w = ⟨2^j, 2^j⟩ := by
      decide
    obtain ⟨j, hj, hbytes, hint⟩ := hwidth _ hw
    simp only [h] at hsize hllvm
    rw [hbytes] at hsize
    exact ⟨j, hj, (Option.some.inj hsize).symm, hllvm.trans hint⟩

/-- What is known of the size and the alignment of a type. -/
structure SizeKnown (t : TypeTable) (ty : Nat) (c : Nat × Nat) : Prop where
  code : t.sizeAlign ty = some c
  lt : c.1 < 2^32
  align : c.2 = (t.llvmLayout ty).align
  whole : (t.llvmLayout ty).Whole 5
  size : (t.llvmLayout ty).size < 2^32 → (c.1 = (t.llvmLayout ty).size ↔ ¬t.IsThreeLanes ty)
  padded : (t.llvmLayout ty).size < 2^32 →
    alignUp c.1 (t.llvmLayout ty).align = (t.llvmLayout ty).size

theorem not_threeLanes {ty : Nat} {x : XlateType} (hx : t.types[ty]? = some x)
    (hkind : x.kind ≠ .vector) : ¬t.IsThreeLanes ty := by
  intro ⟨x', hx', hk, _⟩
  obtain rfl := Option.some.inj (hx.symm.trans hx')
  exact hkind hk

/-- The size that is a multiple of the alignment needs no padding. -/
theorem SizeKnown.of_size {ty : Nat} {c : Nat × Nat} {x : XlateType} (hx : t.types[ty]? = some x)
    (hkind : x.kind ≠ .vector) (hcode : t.sizeAlign ty = some c) (hlt : c.1 < 2^32)
    (halign : c.2 = (t.llvmLayout ty).align) (hwhole : (t.llvmLayout ty).Whole 5)
    (hsize : (t.llvmLayout ty).size < 2^32 → c.1 = (t.llvmLayout ty).size) :
    SizeKnown t ty c := by
  refine ⟨hcode, hlt, halign, hwhole, fun hl => ?_, fun hl => ?_⟩
  · exact iff_of_true (hsize hl) (not_threeLanes hx hkind)
  · rw [hsize hl]
    exact alignUp_of_dvd hwhole.pos hwhole.whole

theorem scalar_known {ty : Nat} {x : XlateType} (hx : t.types[ty]? = some x)
    (hplain : x.PlainScalar) : ∃ c, SizeKnown t ty c := by
  obtain ⟨j, hj, hsize, hllvm⟩ := plainScalar_layout hx hplain
  have hkind : x.kind ≠ .vector := by
    intro hk
    simp [XlateType.PlainScalar, hk] at hplain
  refine ⟨_, SizeKnown.of_size hx hkind hsize ?_ ?_ ?_ fun _ => ?_⟩
  · exact Nat.pow_lt_pow_right (by decide) (by omega)
  · rw [hllvm]
  · rw [hllvm]
    exact ⟨⟨j, by omega, rfl⟩, dvd_refl _⟩
  · rw [hllvm]

theorem vector_known {ty : Nat} {x : XlateType} (hx : t.types[ty]? = some x)
    (hl : HasLayout t.types ty) (hkind : x.kind = .vector) (hlanes : x.op.getD 0 4 ∈ [2, 3, 4])
    {e : XlateType} (he : t.types[x.op.getD 1 0]? = some e) (hplain : e.PlainScalar) :
    ∃ c, SizeKnown t ty c := by
  obtain ⟨j, hj, hsize, hllvm⟩ := plainScalar_layout he hplain
  have hcode := sizeAlign_vector hx hkind
  have hlayout := llvmLayout_step hx hl
  rw [hsize, Option.map_some] at hcode
  simp only [hkind, hllvm] at hlayout
  have hrule : ∀ j ≤ 3, ∀ lanes ∈ [2, 3, 4],
      u32 (2^j*lanes) < 2^32 ∧
      (if lanes = 2 then u32 (2^j*2) else u32 (2^j*4)) = (vectorLayout lanes ⟨2^j, 2^j⟩).align ∧
      (∃ k ≤ 5, (vectorLayout lanes ⟨2^j, 2^j⟩).align = 2^k) ∧
      (u32 (2^j*lanes) = (vectorLayout lanes ⟨2^j, 2^j⟩).size ↔ lanes ≠ 3) ∧
      alignUp (u32 (2^j*lanes)) (vectorLayout lanes ⟨2^j, 2^j⟩).align =
        (vectorLayout lanes ⟨2^j, 2^j⟩).size := by
    decide
  obtain ⟨hlt, halign, hpower, hfull, hpadded⟩ := hrule j hj _ hlanes
  have hthree : x.op.getD 0 4 = 3 ↔ t.IsThreeLanes ty := by
    refine ⟨fun h3 => ⟨x, hx, hkind, h3⟩, ?_⟩
    intro ⟨x', hx', _, h3⟩
    obtain rfl := Option.some.inj (hx.symm.trans hx')
    exact h3
  refine ⟨_, hcode, hlt, ?_, ?_, fun _ => ?_, fun _ => ?_⟩
  · rw [hlayout]
    exact halign
  · rw [hlayout]
    exact ⟨hpower, dvd_refl _⟩
  · rw [hlayout, ← hthree]
    exact hfull
  · rw [hlayout]
    exact hpadded

/-- The stride of an array is the size of its elements. -/
theorem stride_iff {ty : Nat} {e : Nat × Nat} (he : SizeKnown t ty e) :
    roundUp e.1 e.2 = (t.llvmLayout ty).size ↔ (t.llvmLayout ty).size < 2^32 := by
  constructor
  · intro h
    rw [← h]
    exact roundUp_lt he.lt e.2
  · intro hlt
    have hpadded := he.padded hlt
    rw [he.align, ← hpadded]
    exact roundUp_eq he.whole.power (hpadded ▸ hlt)

theorem array_known {ty : Nat} {x : XlateType} (hx : t.types[ty]? = some x)
    (hl : HasLayout t.types ty) (hkind : x.kind = .array)
    (hfits : (t.llvmLayout (x.op.getD 1 0)).size < 2^32) {e : Nat × Nat}
    (he : SizeKnown t (x.op.getD 1 0) e) : ∃ c, SizeKnown t ty c := by
  have hcode := sizeAlign_array hx hkind
  have hlayout := llvmLayout_step hx hl
  simp only [hkind] at hlayout
  rw [he.code, Option.map_some, (stride_iff he).2 hfits] at hcode
  have hno : x.kind ≠ .vector := by simp [hkind]
  refine ⟨_, SizeKnown.of_size hx hno hcode (Nat.mod_lt _ (Nat.two_pow_pos 32)) ?_ ?_ fun hlt => ?_⟩
  · rw [hlayout]
    exact he.align
  · rw [hlayout]
    exact ⟨he.whole.power, Dvd.dvd.mul_left he.whole.whole _⟩
  · rw [hlayout] at hlt ⊢
    rw [u32, Nat.mul_comm]
    exact Nat.mod_eq_of_lt hlt

/-- What is known of all members is known of the offsets. -/
theorem members_agree {x : XlateType} {c : Nat → Nat × Nat}
    (hc : ∀ f ∈ x.op.drop 1, SizeKnown t f (c f))
    (hfits : ∀ f ∈ (x.op.drop 1).dropLast, ¬t.IsThreeLanes f ∧ (t.llvmLayout f).size < 2^32) :
    MembersAgree c t.llvmLayout (x.op.drop 1) :=
  ⟨fun f hf => (hc f hf).align, fun f hf => (hc f hf).whole, fun f hf =>
    ((hc f (List.dropLast_subset _ hf)).size (hfits f hf).2).2 (hfits f hf).1⟩

theorem struct_known {ty : Nat} {x : XlateType} (hx : t.types[ty]? = some x)
    (hl : HasLayout t.types ty) (hkind : x.kind.isStruct = true) (hpacked : x.packed = false)
    (hlt : ∀ v ∈ t.llvmOffsets x, v < 2^32)
    (hfits : ∀ f ∈ (x.op.drop 1).dropLast, ¬t.IsThreeLanes f ∧ (t.llvmLayout f).size < 2^32)
    {c : Nat → Nat × Nat} (hc : ∀ f ∈ x.op.drop 1, SizeKnown t f (c f)) :
    ∃ c', SizeKnown t ty c' := by
  have hcode := sizeAlign_struct hx hkind fun f hf => (hc f hf).code
  have hpack : ∀ es, packMembers x.packed es = es := fun es => by
    rw [packMembers, hpacked]
    rfl
  have hlayout : t.llvmLayout ty = structLayout x.packed ((x.op.drop 1).map t.llvmLayout) := by
    have hstep := llvmLayout_step hx hl
    obtain hk | hk := isStruct_iff.1 hkind <;> simpa only [hk] using hstep
  rw [llvmOffsets, hpack] at hlt
  have hagree := members_agree hc hfits
  have hwholes : ∀ e ∈ (x.op.drop 1).map t.llvmLayout, e.Whole 5 :=
    List.forall_mem_map.2 hagree.whole
  obtain ⟨hpower, hdvd⟩ := maxAlign_power hwholes
  have halign := layoutFold_align (L := t.llvmLayout) hagree.align (0, 1)
  have hno : x.kind ≠ .vector := by
    intro hk
    simp [hk, AirTypeKind.isStruct] at hkind
  refine ⟨_, SizeKnown.of_size hx hno hcode ?_ ?_ ?_ fun hsize => ?_⟩
  · exact roundUp_lt (layoutFold_lt _ (by decide)) _
  · rw [hlayout, structLayout, hpack]
    exact halign
  · rw [hlayout, structLayout, hpack]
    exact ⟨hpower, dvd_alignUp _ _⟩
  · rw [hlayout, structLayout, hpack] at hsize ⊢
    rw [halign]
    exact layoutFold_size hagree (fun f hf => (hc f hf).padded) hpower
      (fun f hf => hdvd _ (List.mem_map_of_mem hf)) (0, 1) hlt hsize

/- Type by type. -/

section
variable {Q : Nat → XlateType → Prop} {ty f : Nat} {x : XlateType}

theorem Throughout.self (h : t.Throughout ty Q) (hx : t.types[ty]? = some x) : Q ty x :=
  h ty x .refl hx

theorem Throughout.part (h : t.Throughout ty Q) (hf : t.Contains ty f) : t.Throughout f Q :=
  fun u y hu hy => h u y (.head hf hu) hy

theorem contains_field (hx : t.types[ty]? = some x) (hkind : x.kind.isStruct = true)
    (hf : f ∈ x.op.drop 1) : t.Contains ty f := ⟨x, hx, Or.inl ⟨hkind, hf⟩⟩

theorem contains_element (hx : t.types[ty]? = some x) (hkind : x.kind = .array) :
    t.Contains ty (x.op.getD 1 0) := ⟨x, hx, Or.inr ⟨hkind, rfl⟩⟩

end

theorem aggregateFits_struct {target : LayoutTarget} {x : XlateType}
    (hkind : x.kind.isStruct = true) : t.AggregateFits target x ↔
      (target ≠ .block → (x.op.drop 1).length ≤ maxStructFields) ∧
        (∀ v ∈ t.llvmOffsets x, v < 2^32) ∧
        ∀ f ∈ (x.op.drop 1).dropLast, ¬t.IsThreeLanes f ∧ (t.llvmLayout f).size < 2^32 := by
  obtain hk | hk := isStruct_iff.1 hkind <;> simp only [AggregateFits, hk]

theorem aggregateRight_struct {D : List AirDecoration} {target : LayoutTarget} {x : XlateType}
    (hkind : x.kind.isStruct = true) : t.AggregateRight D target x ↔
      structMembers x target = x.op.drop 1 ∧
        (∀ i v, .memberOffset target i v ∈ D ↔ (t.llvmOffsets x)[i]? = some v) ∧
        ∀ f ∈ (x.op.drop 1).dropLast,
          (t.sizeAlign f).map Prod.fst = some (t.llvmLayout f).size := by
  obtain hk | hk := isStruct_iff.1 hkind <;> simp only [AggregateRight, hk]

/-- All that a type contains is known where it fits. -/
theorem sizes_known {ty : Nat} (hl : HasLayout t.types ty) (hplain : t.PlainTree ty)
    (hfits : t.Throughout ty fun u y => t.AggregateFits (.type u) y) : ∃ c, SizeKnown t ty c := by
  induction hl with
  | @scalar ty x hty hkind =>
    obtain h | ⟨hk, -⟩ | hk | ⟨hs, -⟩ := hplain.self hty
    · exact scalar_known hty h
    · simp [hk] at hkind
    · simp [hk] at hkind
    · obtain hk | hk := isStruct_iff.1 hs <;> simp [hk] at hkind
  | @element ty x hty hkind helem ih =>
    obtain h | ⟨hk, hlanes, e, he, hscalar⟩ | hk | ⟨hs, -⟩ := hplain.self hty
    · exact scalar_known hty h
    · exact vector_known hty (.element hty hkind helem) hk hlanes he hscalar
    · have hpart := contains_element hty hk
      obtain ⟨e, he⟩ := ih (hplain.part hpart) (hfits.part hpart)
      have hown := hfits.self hty
      simp only [AggregateFits, hk] at hown
      exact array_known hty (.element hty hkind helem) hk hown he
    · obtain hk | hk := isStruct_iff.1 hs <;> simp [hk] at hkind
  | @fields ty x hty hkind hfields ih =>
    obtain h | ⟨hk, -⟩ | hk | ⟨-, hpacked⟩ := hplain.self hty
    · exact scalar_known hty h
    · simp [hk, AirTypeKind.isStruct] at hkind
    · simp [hk, AirTypeKind.isStruct] at hkind
    · have hknown : ∀ f ∈ x.op.drop 1, ∃ c, SizeKnown t f c := by
        intro f hf
        have hpart := contains_field hty hkind hf
        exact ih f hf (hplain.part hpart) (hfits.part hpart)
      choose! c hc using hknown
      obtain ⟨-, hlt, hmembers⟩ := (aggregateFits_struct hkind).1 (hfits.self hty)
      exact struct_known hty (.fields hty hkind hfields) hkind hpacked hlt hmembers hc

/- What is decorated right. -/

section
variable {D : List AirDecoration} {target : LayoutTarget} {x : XlateType}

theorem structRight_iff (hkind : x.kind.isStruct = true) (hpacked : x.packed = false)
    {c : Nat → Nat × Nat} (hc : ∀ f ∈ x.op.drop 1, SizeKnown t f (c f))
    (hD : ∀ i v, .memberOffset target i v ∈ D ↔
      (codeOffsets 0 ((x.op.drop 1).map c))[i]? = some v) :
    t.AggregateRight D target x ↔ t.AggregateFits target x := by
  rw [aggregateRight_struct hkind, aggregateFits_struct hkind]
  constructor
  · intro h
    obtain ⟨hmembers, hoffsets, hsizes⟩ := h
    have heq : codeOffsets 0 ((x.op.drop 1).map c) = t.llvmOffsets x := by
      refine List.ext_getElem? fun i => Option.ext fun v => ?_
      exact (hD i v).symm.trans (hoffsets i v)
    refine ⟨fun htarget => ?_, fun v hv => ?_, fun f hf => ?_⟩
    · have htake : (x.op.drop 1).take maxStructFields = x.op.drop 1 := by
        have hops : x.emitOperands = (x.op.drop 1).take maxStructFields := by
          obtain hk | hk := isStruct_iff.1 hkind <;> simp only [XlateType.emitOperands, hk]
        cases target with
        | block => exact absurd rfl htarget
        | runtimeArray => exact hops.symm.trans hmembers
        | type u => exact hops.symm.trans hmembers
      exact List.take_eq_self_iff _ |>.1 htake
    · rw [← heq] at hv
      exact codeOffsets_lt _ (by decide) v hv
    · have hknown := hc f (List.dropLast_subset _ hf)
      have hsize := hsizes f hf
      rw [hknown.code, Option.map_some] at hsize
      have hlt : (t.llvmLayout f).size < 2^32 := Option.some.inj hsize ▸ hknown.lt
      exact ⟨(hknown.size hlt).1 (Option.some.inj hsize), hlt⟩
  · intro h
    obtain ⟨hlength, hlt, hmembers⟩ := h
    have hagree := members_agree hc hmembers
    have hoffsets : t.llvmOffsets x = offsets 0 ((x.op.drop 1).map t.llvmLayout) := by
      rw [llvmOffsets, packMembers, hpacked]
      rfl
    refine ⟨?_, fun i v => ?_, fun f hf => ?_⟩
    · have hops : target ≠ .block → x.emitOperands = x.op.drop 1 := by
        intro htarget
        have htake := List.take_of_length_le (hlength htarget)
        obtain hk | hk := isStruct_iff.1 hkind <;> simpa only [XlateType.emitOperands, hk]
      cases target with
      | block => rfl
      | runtimeArray => exact hops (by decide)
      | type u => exact hops (by simp)
    · rw [hD, hoffsets, codeOffsets_eq hagree (hoffsets ▸ hlt)]
    · rw [(hc f (List.dropLast_subset _ hf)).code, Option.map_some, hagree.size f hf]

theorem arrayRight_iff (hkind : x.kind = .array) {e : Nat × Nat}
    (he : SizeKnown t (x.op.getD 1 0) e)
    (hD : ∀ v, .arrayStride target v ∈ D ↔ v = roundUp e.1 e.2) :
    t.AggregateRight D target x ↔ t.AggregateFits target x := by
  simp only [AggregateRight, AggregateFits, hkind, hD]
  rw [← stride_iff he]
  exact ⟨fun h => (h _).1 rfl, fun h v => by rw [h]⟩

end

/- What is decorated. -/

section
variable {target : LayoutTarget}

theorem memberEdges_split {fs : List Nat} {i off : Nat} {e : List AirDecoration × Nat}
    (he : e ∈ t.memberEdges target fs i off) :
    ∃ before after, fs = before++e.2::after ∧ ∀ b ∈ before, HasLayout t.types b := by
  induction fs generalizing i off with
  | nil => cases he
  | cons f fs ih =>
    rw [memberEdges] at he
    cases hf : t.sizeAlign f with
    | none =>
      rw [hf] at he
      cases he
    | some c =>
      rw [hf] at he
      obtain rfl | he := List.mem_cons.1 he
      · exact ⟨[], fs, rfl, by simp⟩
      · obtain ⟨before, after, hsplit, hbefore⟩ := ih he
        have hlayout : HasLayout t.types f := by
          rw [← sizeAlign_isSome_iff, hf]
          rfl
        exact ⟨f::before, after, by rw [hsplit]; rfl, List.forall_mem_cons.2 ⟨hlayout, hbefore⟩⟩

theorem memberEdges_reaches {fs : List Nat} (hfs : ∀ f ∈ fs, HasLayout t.types f) {f : Nat}
    (hf : f ∈ fs) (i off : Nat) : ∃ e ∈ t.memberEdges target fs i off, e.2 = f := by
  induction fs generalizing i off with
  | nil => cases hf
  | cons g fs ih =>
    obtain ⟨hg, hfs⟩ := List.forall_mem_cons.1 hfs
    obtain ⟨c, hc⟩ := Option.isSome_iff_exists.1 (sizeAlign_isSome_iff.2 hg)
    rw [memberEdges, hc]
    obtain rfl | hf := List.mem_cons.1 hf
    · exact ⟨_, List.mem_cons_self, rfl⟩
    · obtain ⟨e, he, hef⟩ := ih hfs hf (i+1) (u32 (roundUp off c.2+c.1))
      exact ⟨e, List.mem_cons_of_mem _ he, hef⟩

/-- Each member at the offset that the code counts to. -/
theorem memberEdges_offsets {c : Nat → Nat × Nat} {fs : List Nat}
    (hc : ∀ f ∈ fs, t.sizeAlign f = some (c f)) (i off : Nat) (d : AirDecoration) :
    (∃ e ∈ t.memberEdges target fs i off, d ∈ e.1) ↔
      ∃ k v, (codeOffsets off (fs.map c))[k]? = some v ∧ d = .memberOffset target (i+k) v := by
  induction fs generalizing i off with
  | nil => simp [memberEdges, codeOffsets]
  | cons f fs ih =>
    have hrest := ih (fun g hg => hc g (List.mem_cons_of_mem f hg)) (i+1)
      (u32 (roundUp off (c f).2+(c f).1))
    rw [memberEdges, hc f List.mem_cons_self, List.map_cons, codeOffsets]
    simp only [List.exists_mem_cons_iff, List.mem_singleton, hrest]
    constructor
    · intro h
      obtain rfl | ⟨k, v, hv, rfl⟩ := h
      · exact ⟨0, _, rfl, rfl⟩
      · exact ⟨k+1, v, hv, by rw [Nat.add_assoc, Nat.add_comm 1]⟩
    · intro ⟨k, v, hv, hd⟩
      cases k with
      | zero =>
        rw [List.getElem?_cons_zero] at hv
        rw [Option.some.inj hv]
        exact Or.inl hd
      | succ k => exact Or.inr ⟨k, v, hv, by rw [hd, Nat.add_assoc, Nat.add_comm 1]⟩

end

section
variable {ty f : Nat} {x : XlateType}

theorem layoutGraph_struct (hx : t.types[ty]? = some x) (hkind : x.kind.isStruct = true) :
    t.layoutGraph ty = some (t.memberEdges (.type ty) (x.op.drop 1) 0 0) := by
  rw [layoutGraph, hx]
  obtain hk | hk := isStruct_iff.1 hkind <;> simp only [hk, Option.map_some]

theorem layoutGraph_array (hx : t.types[ty]? = some x) (hkind : x.kind = .array) :
    t.layoutGraph ty = some [(match t.sizeAlign (x.op.getD 1 0) with
      | none => []
      | some e => [.arrayStride (.type ty) (roundUp e.1 e.2)], x.op.getD 1 0)] := by
  have hlength := t.complete x (List.mem_of_getElem? hx) (Or.inr hkind)
  rw [layoutGraph, hx, Option.map_some]
  simp only [hkind, if_neg (not_lt.2 hlength)]

theorem layoutGraph_leaf (hx : t.types[ty]? = some x) (hstruct : x.kind.isStruct = false)
    (harray : x.kind ≠ .array) : t.layoutGraph ty = some [] := by
  rw [layoutGraph, hx]
  cases hk : x.kind <;> simp_all [AirTypeKind.isStruct]

/-- The walk follows what the sizes need. -/
theorem child_follows (h : Child t.layoutGraph ty f) : SizeFollows t.types ty f := by
  obtain ⟨es, out, hes, he⟩ := h
  cases hx : t.types[ty]? with
  | none =>
    rw [layoutGraph, hx] at hes
    cases hes
  | some x =>
    by_cases hs : x.kind.isStruct = true
    · rw [layoutGraph_struct hx hs] at hes
      cases hes
      exact ⟨x, hx, Or.inr ⟨hs, memberEdges_split he⟩⟩
    · by_cases hk : x.kind = .array
      · rw [layoutGraph_array hx hk] at hes
        cases hes
        obtain rfl := congrArg Prod.snd (List.mem_singleton.1 he)
        exact ⟨x, hx, Or.inl ⟨Or.inr hk, rfl⟩⟩
      · rw [layoutGraph_leaf hx (by simpa using hs) hk] at hes
        cases hes
        cases he

theorem layoutGraph_acyclic (ty : Nat) : ¬TransGen (Child t.layoutGraph) ty ty := by
  have hreturns : ∀ ty, Returns fun n => airTypeSizeAlign t.types n ty := by
    intro ty
    by_cases hty : ty < t.types.length
    · exact ⟨t.depth, Option.isSome_iff_ne_none.2 (t.ends ty hty)⟩
    · refine ⟨1, ?_⟩
      simp only [airTypeSizeAlign, List.getElem?_eq_none (not_lt.1 hty)]
      rfl
  intro h
  exact sizeFollows_acyclic_iff.2 hreturns ty (h.lift id fun _ _ => child_follows)

/-- With a layout, a type is walked to all that it contains. -/
theorem child_iff (hl : HasLayout t.types ty) :
    Child t.layoutGraph ty f ↔ t.Contains ty f := by
  constructor
  · intro h
    obtain ⟨x, hx, ⟨hk | hk, rfl⟩ | ⟨hs, before, after, hsplit, -⟩⟩ := child_follows h
    · obtain ⟨es, out, hes, he⟩ := h
      rw [layoutGraph_leaf hx (by simp [hk, AirTypeKind.isStruct]) (by simp [hk])] at hes
      cases hes
      cases he
    · exact contains_element hx hk
    · exact contains_field hx hs (by simp [hsplit])
  · intro h
    obtain ⟨x, hx, h⟩ := h
    obtain ⟨hs, hf⟩ | ⟨hk, rfl⟩ := h
    · have hfields : ∀ f ∈ x.op.drop 1, HasLayout t.types f := fun f hf =>
        hasLayout_part hl hx (Or.inr ⟨hs, hf⟩)
      obtain ⟨e, he, rfl⟩ : ∃ e ∈ t.memberEdges (.type ty) (x.op.drop 1) 0 0, e.2 = f :=
        memberEdges_reaches hfields hf 0 0
      exact ⟨_, e.1, layoutGraph_struct hx hs, he⟩
    · exact ⟨_, _, layoutGraph_array hx hk, List.mem_singleton_self _⟩

theorem outputs_struct (hx : t.types[ty]? = some x) (hkind : x.kind.isStruct = true)
    {c : Nat → Nat × Nat} (hc : ∀ f ∈ x.op.drop 1, t.sizeAlign f = some (c f))
    (d : AirDecoration) : d ∈ outputs t.layoutGraph ty ↔
      ∃ k v, (codeOffsets 0 ((x.op.drop 1).map c))[k]? = some v ∧
        d = .memberOffset (.type ty) k v := by
  rw [mem_outputs (layoutGraph_struct hx hkind), memberEdges_offsets hc]
  simp only [Nat.zero_add]

theorem outputs_array (hx : t.types[ty]? = some x) (hkind : x.kind = .array) {e : Nat × Nat}
    (he : t.sizeAlign (x.op.getD 1 0) = some e) (d : AirDecoration) :
    d ∈ outputs t.layoutGraph ty ↔ d = .arrayStride (.type ty) (roundUp e.1 e.2) := by
  rw [mem_outputs (layoutGraph_array hx hkind), he]
  simp

theorem memberEdges_target {target : LayoutTarget} {fs : List Nat} {i off : Nat}
    {e : List AirDecoration × Nat} (he : e ∈ t.memberEdges target fs i off) :
    ∀ d ∈ e.1, d.target = target := by
  induction fs generalizing i off with
  | nil => cases he
  | cons f fs ih =>
    rw [memberEdges] at he
    cases hf : t.sizeAlign f with
    | none =>
      rw [hf] at he
      cases he
    | some c =>
      rw [hf] at he
      obtain rfl | he := List.mem_cons.1 he
      · intro d hd
        rw [List.mem_singleton.1 hd]
        rfl
      · exact ih he

/-- A type puts out decorations of its own id. -/
theorem outputs_target {d : AirDecoration} (h : d ∈ outputs t.layoutGraph ty) :
    d.target = .type ty := by
  cases hx : t.types[ty]? with
  | none =>
    rw [outputs, layoutGraph, hx] at h
    cases h
  | some x =>
    by_cases hs : x.kind.isStruct = true
    · obtain ⟨e, he, hd⟩ := (mem_outputs (layoutGraph_struct hx hs)).1 h
      exact memberEdges_target he d hd
    · by_cases hk : x.kind = .array
      · cases he : t.sizeAlign (x.op.getD 1 0) with
        | none =>
          rw [outputs, layoutGraph_array hx hk, he] at h
          cases h
        | some e =>
          rw [(outputs_array hx hk he d).1 h]
          rfl
      · rw [outputs, layoutGraph_leaf hx (by simpa using hs) hk] at h
        cases h

end

/-- Of a type, just what the walk puts out for it is decorated. -/
def Decorates (t : TypeTable) (D : List AirDecoration) (ty : Nat) : Prop :=
  ∀ d, d.target = .type ty → (d ∈ D ↔ d ∈ outputs t.layoutGraph ty)

theorem aggregate_iff {D : List AirDecoration} {ty : Nat} {x : XlateType}
    (hx : t.types[ty]? = some x) (hplain : t.Plain x) (hD : t.Decorates D ty)
    (hknown : ∀ f, t.Contains ty f → ∃ c, SizeKnown t f c) :
    t.AggregateRight D (.type ty) x ↔ t.AggregateFits (.type ty) x := by
  obtain (h | h | h | ⟨h, -⟩) | ⟨hk, -⟩ | hk | ⟨hs, hpacked⟩ := hplain
  · simp only [AggregateRight, AggregateFits, h]
  · simp only [AggregateRight, AggregateFits, h]
  · simp only [AggregateRight, AggregateFits, h]
  · simp only [AggregateRight, AggregateFits, h]
  · simp only [AggregateRight, AggregateFits, hk]
  · obtain ⟨e, he⟩ := hknown _ (contains_element hx hk)
    refine arrayRight_iff hk he fun v => ?_
    rw [hD _ rfl, outputs_array hx hk he.code]
    simp
  · have hfields : ∀ f ∈ x.op.drop 1, ∃ c, SizeKnown t f c := fun f hf =>
      hknown f (contains_field hx hs hf)
    choose! c hc using hfields
    refine structRight_iff hs hpacked hc fun i v => ?_
    rw [hD _ rfl, outputs_struct hx hs fun f hf => (hc f hf).code]
    simp

theorem hasLayout_contains {ty f : Nat} (hl : HasLayout t.types ty) (hf : t.Contains ty f) :
    HasLayout t.types f := by
  obtain ⟨x, hx, hs | ⟨hk, rfl⟩⟩ := hf
  · exact hasLayout_part hl hx (Or.inr hs)
  · exact hasLayout_part hl hx (Or.inl ⟨Or.inr hk, rfl⟩)

theorem hasLayout_reach {ty u : Nat} (hl : HasLayout t.types ty)
    (h : ReflTransGen t.Contains ty u) : HasLayout t.types u := by
  induction h with
  | refl => exact hl
  | tail _ hf ih => exact hasLayout_contains ih hf

theorem reach_iff {ty u : Nat} (hl : HasLayout t.types ty) :
    ReflTransGen (Child t.layoutGraph) ty u ↔ ReflTransGen t.Contains ty u := by
  constructor
  · intro h
    induction h with
    | refl => exact .refl
    | tail _ hf ih => exact ih.tail ((child_iff (hasLayout_reach hl ih)).1 hf)
  · intro h
    induction h with
    | refl => exact .refl
    | tail hab hf ih => exact ih.tail ((child_iff (hasLayout_reach hl hab)).2 hf)

/-- With a layout, what holds of all parts of a type leads to the type. -/
theorem layout_induction {motive : ∀ ty, HasLayout t.types ty → Prop}
    (step : ∀ ty hl, (∀ f (hf : t.Contains ty f), motive f (hasLayout_contains hl hf)) →
      motive ty hl) {ty : Nat} (hl : HasLayout t.types ty) : motive ty hl := by
  induction hl with
  | @scalar ty x hty hkind =>
    refine step ty (.scalar hty hkind) fun f ⟨x', hx', hf⟩ => ?_
    obtain rfl := Option.some.inj (hty.symm.trans hx')
    obtain ⟨hs, -⟩ | ⟨hk, -⟩ := hf
    · obtain hk | hk := isStruct_iff.1 hs <;> simp [hk] at hkind
    · simp [hk] at hkind
  | @element ty x hty hkind helem ih =>
    refine step ty (.element hty hkind helem) fun f ⟨x', hx', hf⟩ => ?_
    obtain rfl := Option.some.inj (hty.symm.trans hx')
    obtain ⟨hs, -⟩ | ⟨-, rfl⟩ := hf
    · obtain hk | hk := isStruct_iff.1 hs <;> simp [hk] at hkind
    · exact ih
  | @fields ty x hty hkind hfields ih =>
    refine step ty (.fields hty hkind hfields) fun f ⟨x', hx', hf⟩ => ?_
    obtain rfl := Option.some.inj (hty.symm.trans hx')
    obtain ⟨-, hf⟩ | ⟨hk, -⟩ := hf
    · exact ih f hf
    · simp [hk, AirTypeKind.isStruct] at hkind

theorem throughout_iff {ty : Nat} {Q : Nat → XlateType → Prop} : t.Throughout ty Q ↔
    (∀ x, t.types[ty]? = some x → Q ty x) ∧ ∀ f, t.Contains ty f → t.Throughout f Q := by
  constructor
  · exact fun h => ⟨fun x hx => h.self hx, fun f hf => h.part hf⟩
  · intro ⟨hown, hparts⟩ u y hu hy
    obtain rfl | ⟨f, hf, hu⟩ := hu.cases_head
    · exact hown y hy
    · exact hparts f hf u y hu hy

/-- Everything below is decorated right just where it fits. -/
theorem throughout_right_iff {D : List AirDecoration} {ty : Nat} (hl : HasLayout t.types ty)
    (hplain : t.PlainTree ty) (hD : ∀ u, ReflTransGen t.Contains ty u → t.Decorates D u) :
    t.Throughout ty (fun u y => t.AggregateRight D (.type u) y) ↔
      t.Throughout ty fun u y => t.AggregateFits (.type u) y := by
  induction hl using layout_induction with
  | step ty hl ih =>
    have hpart : ∀ f, t.Contains ty f →
        (t.Throughout f (fun u y => t.AggregateRight D (.type u) y) ↔
          t.Throughout f fun u y => t.AggregateFits (.type u) y) :=
      fun f hf => ih f hf (hplain.part hf) fun u hu => hD u (.head hf hu)
    have hown : (∀ f, t.Contains ty f → t.Throughout f fun u y => t.AggregateFits (.type u) y) →
        ∀ x, t.types[ty]? = some x →
          (t.AggregateRight D (.type ty) x ↔ t.AggregateFits (.type ty) x) := by
      intro hfits x hx
      refine aggregate_iff hx (hplain.self hx) (hD ty .refl) fun f hf => ?_
      exact sizes_known (hasLayout_contains hl hf) (hplain.part hf) (hfits f hf)
    rw [throughout_iff, throughout_iff]
    constructor
    · intro ⟨hright, hrights⟩
      have hfits := fun f hf => (hpart f hf).1 (hrights f hf)
      exact ⟨fun x hx => (hown hfits x hx).1 (hright x hx), hfits⟩
    · intro ⟨hfit, hfits⟩
      exact ⟨fun x hx => (hown hfits x hx).2 (hfit x hx), fun f hf => (hpart f hf).2 (hfits f hf)⟩

/- The walk on ids. -/

/-- From `s` to `s'` the decorations `D` are emitted, on the ids that the types have in the
end. -/
structure Emits (s s' : LayoutEmitter) (D : List AirDecoration) : Prop where
  keeps : KeepsIds s.types s'.types
  decorations : ∀ ids : LayoutTarget → Nat,
    (∀ u, s'.types.spvTypeIds u ≠ 0 → ids (.type u) = s'.types.spvTypeIds u) →
      s'.decorations = s.decorations++D.map (AirDecoration.onIds ids)

section
variable {s u v : LayoutEmitter} {D D' : List AirDecoration}

theorem Emits.refl (s : LayoutEmitter) : Emits s s [] :=
  ⟨.refl s.types, fun _ _ => (List.append_nil _).symm⟩

theorem Emits.trans (h : Emits s u D) (h' : Emits u v D') : Emits s v (D++D') := by
  refine ⟨h.keeps.trans h'.keeps, fun ids hids => ?_⟩
  have hmid : ∀ i, u.types.spvTypeIds i ≠ 0 → ids (.type i) = u.types.spvTypeIds i := by
    intro i hi
    have hv := h'.keeps.memo i hi
    rw [hids i (hv ▸ hi), hv]
  rw [h'.decorations ids hids, h.decorations ids hmid, List.map_append, List.append_assoc]

theorem Emits.of_types {types : TypeEmitter} (h : KeepsIds s.types types) :
    Emits s { s with types := types } [] := ⟨h, fun _ _ => (List.append_nil _).symm⟩

/-- A decoration on the id that the memo has for a type. -/
theorem Emits.decorate {ty sid : Nat} (hid : s.types.spvTypeIds ty = sid) (hne : sid ≠ 0)
    {d : AirDecoration} {d' : LayoutDecoration}
    (hd : ∀ ids : LayoutTarget → Nat, ids (.type ty) = sid → d.onIds ids = d') :
    Emits s (s.decorate d') [d] := by
  refine ⟨.refl s.types, fun ids hids => ?_⟩
  have hty := hids ty (hid ▸ hne)
  rw [List.map_singleton, hd ids (hty.trans hid)]
  rfl

end

theorem decorateFields_emits {n ty sid : Nat}
    (ih : ∀ f visited s visited' s', s.types.nextId ≠ 0 →
      decorateNestedLayout t.types n f visited s = some (visited', s') →
      ∃ D, t.nestedLayout n f visited = some (visited', D) ∧ Emits s s' D)
    (hne : sid ≠ 0) (fs : List Nat) (i off : Nat) {visited visited' : List Nat}
    {s s' : LayoutEmitter} (hid : s.types.spvTypeIds ty = sid) (hnext : s.types.nextId ≠ 0)
    (h : decorateFields (airTypeSizeAlign t.types n) (decorateNestedLayout t.types n) sid fs i off
      visited s = some (visited', s')) :
    ∃ D, walk (t.nestedLayout n) (t.memberEdges (.type ty) fs i off) visited =
      some (visited', D) ∧ Emits s s' D := by
  induction fs generalizing i off visited s with
  | nil =>
    cases h
    exact ⟨[], rfl, .refl _⟩
  | cons f fs ihl =>
    obtain ⟨e, he, h⟩ := Option.bind_eq_some_iff.1 h
    rw [memberEdges, sizeAlign_of he]
    cases e with
    | none =>
      cases h
      exact ⟨[], rfl, .refl _⟩
    | some e =>
      obtain ⟨⟨visited₁, s₁⟩, h₁, hrest⟩ := Option.bind_eq_some_iff.1 h
      have hfirst : Emits s (s.decorate (.memberOffset sid i (roundUp off e.2)))
          [.memberOffset (.type ty) i (roundUp off e.2)] := by
        refine .decorate hid hne fun ids hids => ?_
        rw [AirDecoration.onIds, hids]
      obtain ⟨D₁, hD₁, hemits⟩ := ih f visited (s.decorate _) visited₁ s₁ hnext h₁
      have hpart := hfirst.trans hemits
      have hid₁ : s₁.types.spvTypeIds ty = sid := by
        rw [hpart.keeps.memo ty (hid ▸ hne), hid]
      have hnext₁ : s₁.types.nextId ≠ 0 := by
        have hle := hpart.keeps.next
        omega
      obtain ⟨D₂, hD₂, hemits₂⟩ := ihl (i+1) _ hid₁ hnext₁ hrest
      refine ⟨_, ?_, hpart.trans hemits₂⟩
      simp only [walk, hD₁, hD₂, Option.bind_some, Option.map_some, List.append_assoc]

/-- On ids, the walk emits what it emits on types. -/
theorem decorateNestedLayout_emits (n : Nat) : ∀ ty visited s visited' s',
    s.types.nextId ≠ 0 → decorateNestedLayout t.types n ty visited s = some (visited', s') →
      ∃ D, t.nestedLayout n ty visited = some (visited', D) ∧ Emits s s' D := by
  induction n with
  | zero =>
    intro ty visited s visited' s' _ h
    cases h
  | succ n ih =>
    intro ty visited s visited' s' hnext h
    rw [decorateNestedLayout] at h
    cases hx : t.types[ty]? with
    | none =>
      rw [hx] at h
      cases h
      exact ⟨[], by rw [nestedLayout, visit, layoutGraph, hx]; rfl, .refl s⟩
    | some x =>
      rw [hx] at h
      have hbool : ty ≠ airTypeBool := by
        have hty := (List.getElem?_eq_some_iff.1 hx).1
        have hfits := t.fits
        rw [maxTypes] at hfits
        rw [airTypeBool]
        omega
      by_cases hseen : ty ∈ visited
      · simp only [if_pos hseen] at h
        cases h
        refine ⟨[], ?_, .refl s⟩
        rw [nestedLayout, visit, layoutGraph, hx, Option.map_some]
        exact if_pos hseen
      simp only [if_neg hseen] at h
      have hvisit : ∀ es, t.layoutGraph ty = some es → t.nestedLayout (n+1) ty visited =
          walk (t.nestedLayout n) es (markVisited visited ty) := by
        intro es hes
        rw [nestedLayout, visit, hes]
        exact if_neg hseen
      by_cases hs : x.kind.isStruct = true
      · have hstruct : ((emitAirType t.types n ty s.types).bind fun sid =>
            decorateFields (airTypeSizeAlign t.types n) (decorateNestedLayout t.types n) sid.1
              (x.op.drop 1) 0 0 (markVisited visited ty) { s with types := sid.2 }) =
            some (visited', s') := by
          obtain hk | hk := isStruct_iff.1 hs <;> simpa only [hk, markVisited] using h
        obtain ⟨⟨sid, types⟩, hsid, hfields⟩ := Option.bind_eq_some_iff.1 hstruct
        obtain ⟨hne, hid⟩ := emitAirType_aggregate hsid hbool hx (Or.inl hs) hnext
        have hkeeps := emitAirType_keeps hsid
        have hnext' : types.nextId ≠ 0 := by
          have hle := hkeeps.next
          omega
        obtain ⟨D, hD, hemits⟩ := decorateFields_emits ih hne _ 0 0 hid hnext' hfields
        refine ⟨D, ?_, (Emits.of_types hkeeps).trans hemits⟩
        rw [hvisit _ (layoutGraph_struct hx hs), hD]
      · by_cases hk : x.kind = .array
        · have hlength := t.complete x (List.mem_of_getElem? hx) (Or.inr hk)
          simp only [hk, if_neg (not_lt.2 hlength)] at h
          obtain ⟨e, he, h⟩ := Option.bind_eq_some_iff.1 h
          obtain ⟨s₁, h₁, hrest⟩ := Option.bind_eq_some_iff.1 h
          have hgraph := layoutGraph_array hx hk
          rw [sizeAlign_of he] at hgraph
          have hfirst : ∃ out, t.layoutGraph ty = some [(out, x.op.getD 1 0)] ∧ Emits s s₁ out := by
            cases e with
            | none =>
              cases h₁
              exact ⟨[], hgraph, .refl s⟩
            | some e =>
              obtain ⟨⟨aid, types⟩, haid, rfl⟩ := Option.map_eq_some_iff.1 h₁
              obtain ⟨hne, hid⟩ := emitAirType_aggregate haid hbool hx (Or.inr hk) hnext
              refine ⟨_, hgraph, (Emits.of_types (emitAirType_keeps haid)).trans ?_⟩
              refine .decorate hid hne fun ids hids => ?_
              rw [AirDecoration.onIds, hids]
          obtain ⟨out, hout, hemits⟩ := hfirst
          have hnext₁ : s₁.types.nextId ≠ 0 := by
            have hle := hemits.keeps.next
            omega
          obtain ⟨D, hD, hrest⟩ := ih _ _ s₁ visited' s' hnext₁ hrest
          refine ⟨out++D, ?_, hemits.trans hrest⟩
          rw [hvisit _ hout]
          simp only [walk, markVisited, hD, Option.bind_some, Option.map_some, List.append_nil]
        · have hleaf : visited' = markVisited visited ty ∧ s' = s := by
            cases hkind : x.kind <;> simp_all [AirTypeKind.isStruct, markVisited]
          obtain ⟨rfl, rfl⟩ := hleaf
          refine ⟨[], ?_, .refl s'⟩
          rw [hvisit _ (layoutGraph_leaf hx (by simpa using hs) hk)]
          rfl

/- The decorations of a Block. -/

theorem mem_markVisited (visited : List Nat) (ty : Nat) :
    ∀ v ∈ markVisited visited ty, v = ty ∨ v ∈ visited := by
  intro v hv
  rw [markVisited] at hv
  split_ifs at hv
  · obtain hv | hv := List.mem_append.1 hv
    · exact Or.inr hv
    · exact Or.inl (List.mem_singleton.1 hv)
  · exact Or.inr hv

/-- What is deep enough for the size of a type is deep enough for the walk. -/
theorem nestedLayout_isSome {n ty : Nat} (h : (airTypeSizeAlign t.types n ty).isSome = true)
    (visited : List Nat) : (t.nestedLayout n ty visited).isSome = true := by
  refine visit_isSome (fun n ty => (airTypeSizeAlign t.types n ty).isSome = true) ?_ ?_ n ty
    visited h
  · exact fun _ h => Bool.false_ne_true h
  · exact fun n a b h hb => airTypeSizeAlign_follows h (child_follows hb)

section
variable {ty : Nat} {x : XlateType}

theorem blockFields_layout (hx : t.types[ty]? = some x) (hs : x.kind.isStruct = true)
    (hb : t.blockFields x = true) : HasLayout t.types ty := by
  obtain ⟨-, hall⟩ := Bool.and_eq_true_iff.1 hb
  exact .fields hx hs fun f hf => sizeAlign_isSome_iff.1 (List.all_eq_true.1 hall f hf)

theorem blockLayout_struct (hx : t.types[ty]? = some x) (hs : x.kind.isStruct = true)
    (hb : t.blockFields x = true) : ∃ D, t.blockLayout t.depth ty = some D ∧ ∀ d, d ∈ D ↔
      ∃ e ∈ t.memberEdges .block (x.op.drop 1) 0 0, d ∈ e.1 ∨
        ∃ u, ReflTransGen t.Contains e.2 u ∧ d ∈ outputs t.layoutGraph u := by
  have hl := blockFields_layout hx hs hb
  have hty := (List.getElem?_eq_some_iff.1 hx).1
  have hpart : ∀ e ∈ t.memberEdges .block (x.op.drop 1) 0 0, t.Contains ty e.2 := by
    intro e he
    obtain ⟨before, after, hsplit, -⟩ := memberEdges_split he
    exact contains_field hx hs (by simp [hsplit])
  have hsome : (walk (t.nestedLayout t.depth) (t.memberEdges .block (x.op.drop 1) 0 0)
      [ty]).isSome = true := by
    refine walk_isSome _ (fun e _ visited => nestedLayout_isSome ?_ visited) [ty]
    rw [depth_enough hty e.2]
    rfl
  obtain ⟨⟨visited, D⟩, hD⟩ := Option.isSome_iff_exists.1 hsome
  refine ⟨D, ?_, fun d => ?_⟩
  · rw [blockLayout, hx]
    simp only [if_pos hs, if_pos hb, hD, Option.map_some]
  · have hseen : ∀ v ∈ [ty], ∀ e ∈ t.memberEdges .block (x.op.drop 1) 0 0,
        TransGen (Child t.layoutGraph) v e.2 := by
      intro v hv e he
      rw [List.mem_singleton.1 hv]
      exact .single ((child_iff hl).2 (hpart e he))
    rw [mem_walk mem_markVisited layoutGraph_acyclic hseen hD]
    refine exists_congr fun e => and_congr_right fun he => or_congr_right ?_
    exact exists_congr fun u => and_congr_left fun _ => reach_iff (hasLayout_contains hl (hpart e he))

theorem blockLayout_array (hx : t.types[ty]? = some x) (hs : ¬x.kind.isStruct = true)
    (hb : t.bufferArgNonstructPointee ty ≠ 0) : ∃ e D, t.sizeAlign ty = some e ∧
      t.blockLayout t.depth ty = some D ∧ ∀ d, d ∈ D ↔
        (∃ u, ReflTransGen t.Contains ty u ∧ d ∈ outputs t.layoutGraph u) ∨
          d = .arrayStride .runtimeArray (roundUp e.1 e.2) ∨ d = .memberOffset .block 0 0 := by
  have helem : t.elementType ty = true := by
    by_contra hno
    exact hb (if_neg hno)
  rw [elementType, hx] at helem
  obtain ⟨e, he⟩ := Option.isSome_iff_exists.1 (Bool.and_eq_true_iff.1 helem).2
  have hty := (List.getElem?_eq_some_iff.1 hx).1
  have hdepth : (airTypeSizeAlign t.types t.depth ty).isSome = true := by
    rw [depth_enough hty ty]
    rfl
  obtain ⟨⟨visited, D⟩, hD⟩ := Option.isSome_iff_exists.1 (nestedLayout_isSome hdepth [])
  have hl : HasLayout t.types ty := by
    rw [← sizeAlign_isSome_iff, he]
    rfl
  refine ⟨e, D++[.arrayStride .runtimeArray (roundUp e.1 e.2), .memberOffset .block 0 0], he, ?_,
    fun d => ?_⟩
  · rw [blockLayout, hx]
    simp only [if_neg hs, if_pos hb, he, hD, Option.bind_some, Option.map_some]
  · rw [List.mem_append, mem_visit mem_markVisited layoutGraph_acyclic hD]
    refine or_congr ?_ (by simp)
    exact exists_congr fun u => and_congr_left fun _ => reach_iff hl

theorem structBlock_iff {D : List AirDecoration} (hx : t.types[ty]? = some x)
    (hs : x.kind.isStruct = true) (hl : HasLayout t.types ty) (hplain : t.PlainTree ty)
    (hmem : ∀ d, d ∈ D ↔ ∃ e ∈ t.memberEdges .block (x.op.drop 1) 0 0, d ∈ e.1 ∨
      ∃ u, ReflTransGen t.Contains e.2 u ∧ d ∈ outputs t.layoutGraph u) :
    t.BlockRight D ty ↔ t.BlockFits ty := by
  have hfields : ∀ f ∈ x.op.drop 1, HasLayout t.types f := fun f hf =>
    hasLayout_contains hl (contains_field hx hs hf)
  have hplains : ∀ f ∈ x.op.drop 1, t.PlainTree f := fun f hf =>
    hplain.part (contains_field hx hs hf)
  have hD : ∀ f ∈ x.op.drop 1, ∀ u, ReflTransGen t.Contains f u → t.Decorates D u := by
    intro f hf u hu d hd
    rw [hmem]
    constructor
    · intro h
      obtain ⟨e, he, hd'⟩ := h
      obtain hd' | ⟨b, -, hd'⟩ := hd'
      · cases hd.symm.trans (memberEdges_target he d hd')
      · cases hd.symm.trans (outputs_target hd')
        exact hd'
    · intro hd'
      obtain ⟨e, he, rfl⟩ := memberEdges_reaches hfields hf 0 0
      exact ⟨e, he, Or.inr ⟨u, hu, hd'⟩⟩
  have hparts : ∀ f ∈ x.op.drop 1, (t.Throughout f (fun u y => t.AggregateRight D (.type u) y) ↔
      t.Throughout f fun u y => t.AggregateFits (.type u) y) := fun f hf =>
    throughout_right_iff (hfields f hf) (hplains f hf) (hD f hf)
  -- the members of the Block itself, once those below are known
  have hown : (∀ f ∈ x.op.drop 1, t.Throughout f fun u y => t.AggregateFits (.type u) y) →
      (t.AggregateRight D .block x ↔ t.AggregateFits .block x) := by
    intro hfits
    have hknown : ∀ f ∈ x.op.drop 1, ∃ c, SizeKnown t f c := fun f hf =>
      sizes_known (hfields f hf) (hplains f hf) (hfits f hf)
    have hpacked : x.packed = false := by
      obtain h | ⟨hk, -⟩ | hk | ⟨-, hpacked⟩ := hplain.self hx
      · obtain hk | hk := isStruct_iff.1 hs <;> simp [XlateType.PlainScalar, hk] at h
      · simp [hk, AirTypeKind.isStruct] at hs
      · simp [hk, AirTypeKind.isStruct] at hs
      · exact hpacked
    choose! c hc using hknown
    have hcode : ∀ f ∈ x.op.drop 1, t.sizeAlign f = some (c f) := fun f hf => (hc f hf).code
    refine structRight_iff hs hpacked hc fun i v => ?_
    have hpieces : (∃ e ∈ t.memberEdges .block (x.op.drop 1) 0 0, .memberOffset .block i v ∈ e.1) ↔
        (codeOffsets 0 ((x.op.drop 1).map c))[i]? = some v := by
      rw [memberEdges_offsets hcode]
      simp
    rw [hmem]
    constructor
    · intro h
      obtain ⟨e, he, hd⟩ := h
      obtain hd | ⟨u, -, hd⟩ := hd
      · exact hpieces.1 ⟨e, he, hd⟩
      · cases outputs_target hd
    · intro hv
      obtain ⟨e, he, hd⟩ := hpieces.2 hv
      exact ⟨e, he, Or.inl hd⟩
  constructor
  · intro h
    obtain ⟨x', hx', hright⟩ := h
    obtain rfl := Option.some.inj (hx.symm.trans hx')
    rw [if_pos hs] at hright
    have hfits := fun f hf => (hparts f hf).1 (hright.2 f hf)
    exact ⟨x, hx, by rw [if_pos hs]; exact ⟨(hown hfits).1 hright.1, hfits⟩⟩
  · intro h
    obtain ⟨x', hx', hfits⟩ := h
    obtain rfl := Option.some.inj (hx.symm.trans hx')
    rw [if_pos hs] at hfits
    have hrights := fun f hf => (hparts f hf).2 (hfits.2 f hf)
    exact ⟨x, hx, by rw [if_pos hs]; exact ⟨(hown hfits.2).2 hfits.1, hrights⟩⟩

theorem arrayBlock_iff {D : List AirDecoration} {e : Nat × Nat} (hx : t.types[ty]? = some x)
    (hs : ¬x.kind.isStruct = true) (he : t.sizeAlign ty = some e) (hplain : t.PlainTree ty)
    (hmem : ∀ d, d ∈ D ↔ (∃ u, ReflTransGen t.Contains ty u ∧ d ∈ outputs t.layoutGraph u) ∨
      d = .arrayStride .runtimeArray (roundUp e.1 e.2) ∨ d = .memberOffset .block 0 0) :
    t.BlockRight D ty ↔ t.BlockFits ty := by
  have hl : HasLayout t.types ty := by
    rw [← sizeAlign_isSome_iff, he]
    rfl
  have hD : ∀ u, ReflTransGen t.Contains ty u → t.Decorates D u := by
    intro u hu d hd
    rw [hmem]
    constructor
    · intro hd'
      obtain ⟨b, -, hd'⟩ | rfl | rfl := hd'
      · cases hd.symm.trans (outputs_target hd')
        exact hd'
      · cases hd
      · cases hd
    · exact fun hd' => Or.inl ⟨u, hu, hd'⟩
  have hparts := throughout_right_iff hl hplain hD
  have hstride : ∀ v, .arrayStride .runtimeArray v ∈ D ↔ v = roundUp e.1 e.2 := by
    intro v
    have hno : ¬∃ u, ReflTransGen t.Contains ty u ∧
        .arrayStride .runtimeArray v ∈ outputs t.layoutGraph u := by
      intro ⟨u, _, hd⟩
      cases outputs_target hd
    rw [hmem, or_iff_right hno]
    simp
  have hoffset : ∀ i v, .memberOffset .block i v ∈ D ↔ i = 0 ∧ v = 0 := by
    intro i v
    have hno : ¬∃ u, ReflTransGen t.Contains ty u ∧
        .memberOffset .block i v ∈ outputs t.layoutGraph u := by
      intro ⟨u, _, hd⟩
      cases outputs_target hd
    rw [hmem, or_iff_right hno]
    simp
  have hown : (t.Throughout ty fun u y => t.AggregateFits (.type u) y) →
      ((∀ v, .arrayStride .runtimeArray v ∈ D ↔ v = (t.llvmLayout ty).size) ↔
        (t.llvmLayout ty).size < 2^32) := by
    intro hfits
    obtain ⟨c, hc⟩ := sizes_known hl hplain hfits
    obtain rfl := Option.some.inj (he.symm.trans hc.code)
    rw [← stride_iff hc]
    simp only [hstride]
    exact ⟨fun h => (h _).1 rfl, fun h v => by rw [h]⟩
  constructor
  · intro ⟨x', hx', hright⟩
    obtain rfl := Option.some.inj (hx.symm.trans hx')
    rw [if_neg hs] at hright
    obtain ⟨hlast, -, hrights⟩ := hright
    have hfits := hparts.1 hrights
    exact ⟨x, hx, by rw [if_neg hs]; exact ⟨(hown hfits).1 hlast, hfits⟩⟩
  · intro ⟨x', hx', hfits⟩
    obtain rfl := Option.some.inj (hx.symm.trans hx')
    rw [if_neg hs] at hfits
    obtain ⟨hlast, hfits⟩ := hfits
    exact ⟨x, hx, by rw [if_neg hs]; exact ⟨(hown hfits).2 hlast, hoffset, hparts.2 hfits⟩⟩

end

/-- The layout of a Block of plain types is that of LLVM just where it fits. -/
theorem block_layout_iff (t : TypeTable) (ty : Nat) (h : t.blockStructHandleable ty = true)
    (hplain : t.PlainTree ty) : ∃ D, t.blockLayout t.depth ty = some D ∧
      (t.BlockRight D ty ↔ t.BlockFits ty) := by
  cases hx : t.types[ty]? with
  | none =>
    rw [blockStructHandleable, hx] at h
    cases h
  | some x =>
    rw [blockStructHandleable, hx] at h
    by_cases hs : x.kind.isStruct = true
    · simp only [if_pos hs] at h
      obtain ⟨D, hD, hmem⟩ := blockLayout_struct hx hs h
      exact ⟨D, hD, structBlock_iff hx hs (blockFields_layout hx hs h) hplain hmem⟩
    · simp only [if_neg hs, decide_eq_true_eq] at h
      obtain ⟨e, D, he, hD, hmem⟩ := blockLayout_array hx hs h
      exact ⟨D, hD, arrayBlock_iff hx hs he hplain hmem⟩

/-- A float, a vector of four and one of three, a struct of a vector of four and a float, one of
a vector of three and a float, and a packed struct of a byte and a float. -/
def blockTypes : TypeTable where
  types := [⟨.float, []⟩, ⟨.vector, [4, 0]⟩, ⟨.structAnon, [0, 1, 0]⟩, ⟨.vector, [3, 0]⟩,
    ⟨.structAnon, [0, 3, 0]⟩, ⟨.integer, [8]⟩, ⟨.structAnon, [1, 5, 0]⟩]
  structName := fun _ => none
  depth := 3
  complete := by decide
  ends := by decide
  fits := by decide

theorem blockTypes_contains {f : Nat} (h : blockTypes.Contains 2 f) : f ∈ [1, 0] := by
  obtain ⟨x, hx, ⟨-, hf⟩ | ⟨hk, -⟩⟩ := h
  · cases hx
    exact hf
  · cases hx
    cases hk

/-- From the fields of the struct, nothing else is reached. -/
theorem blockTypes_reach {f u : Nat} (hf : f ∈ [1, 0])
    (h : ReflTransGen blockTypes.Contains f u) : u = f := by
  obtain rfl | ⟨g, ⟨x, hx, hg⟩, -⟩ := h.cases_head
  · rfl
  · obtain rfl | rfl : f = 1 ∨ f = 0 := by simpa using hf
    · cases hx
      obtain ⟨hs, -⟩ | ⟨hk, -⟩ := hg
      · cases hs
      · cases hk
    · cases hx
      obtain ⟨hs, -⟩ | ⟨hk, -⟩ := hg
      · cases hs
      · cases hk

theorem blockTypes_fields {Q : Nat → XlateType → Prop} (h1 : Q 1 ⟨.vector, [4, 0]⟩)
    (h0 : Q 0 ⟨.float, []⟩) : ∀ f ∈ [1, 0], blockTypes.Throughout f Q := by
  intro f hf u y hu hy
  obtain rfl := blockTypes_reach hf hu
  obtain rfl | rfl : u = 1 ∨ u = 0 := by simpa using hf
  · cases hy
    exact h1
  · cases hy
    exact h0

theorem vec4_block_right : ∃ D, blockTypes.blockLayout 3 2 = some D ∧ blockTypes.BlockRight D 2 := by
  have hplain : blockTypes.PlainTree 2 := by
    refine throughout_iff.2 ⟨?_, fun f hf => ?_⟩
    · intro x hx
      cases hx
      exact Or.inr (Or.inr (Or.inr ⟨rfl, rfl⟩))
    · refine blockTypes_fields ?_ ?_ f (blockTypes_contains hf)
      · exact Or.inr (Or.inl ⟨rfl, by decide, ⟨.float, []⟩, rfl, Or.inl rfl⟩)
      · exact Or.inl (Or.inl rfl)
  have hfits : blockTypes.BlockFits 2 := by
    refine ⟨⟨.structAnon, [0, 1, 0]⟩, rfl, ?_⟩
    refine (if_pos (by decide)).mpr ?_
    refine ⟨⟨fun h => absurd rfl h, by decide, ?_⟩, blockTypes_fields trivial trivial⟩
    intro f hf
    obtain rfl : f = 1 := by simpa using hf
    refine ⟨?_, by decide⟩
    intro ⟨x, hx, _, hthree⟩
    cases hx
    cases hthree
  obtain ⟨D, hD, hiff⟩ := block_layout_iff blockTypes 2 (by decide) hplain
  exact ⟨D, hD, hiff.2 hfits⟩

/-- A float behind a vector of three is at 12, not at 16; one behind a byte in a packed struct at
4, not at 1. -/
theorem vec3_member_misplaced :
    (blockTypes.blockStructHandleable 4 = true ∧
      blockTypes.blockLayout 3 4 =
        some [.memberOffset .block 0 0, .memberOffset .block 1 12] ∧
      (blockTypes.types[4]?).map blockTypes.llvmOffsets = some [0, 16] ∧
      ∀ D, blockTypes.blockLayout 3 4 = some D → ¬blockTypes.BlockRight D 4) ∧
    (blockTypes.blockStructHandleable 6 = true ∧
      blockTypes.blockLayout 3 6 =
        some [.memberOffset .block 0 0, .memberOffset .block 1 4] ∧
      (blockTypes.types[6]?).map blockTypes.llvmOffsets = some [0, 1] ∧
      ∀ D, blockTypes.blockLayout 3 6 = some D → ¬blockTypes.BlockRight D 6) := by
  have hwrong : ∀ (ty v w : Nat) (x : XlateType), blockTypes.types[ty]? = some x →
      x.kind.isStruct = true → v ≠ w → blockTypes.llvmOffsets x = [0, w] →
      blockTypes.blockLayout 3 ty = some [.memberOffset .block 0 0, .memberOffset .block 1 v] →
      ∀ D, blockTypes.blockLayout 3 ty = some D → ¬blockTypes.BlockRight D ty := by
    intro ty v w x hx hs hne hllvm hcode D hD ⟨x', hx', hright⟩
    obtain rfl := Option.some.inj (hx.symm.trans hx')
    obtain rfl := Option.some.inj (hcode.symm.trans hD)
    rw [if_pos hs] at hright
    obtain ⟨-, hoffsets, -⟩ := (aggregateRight_struct hs).1 hright.1
    have hv := (hoffsets 1 v).1 (by simp)
    rw [hllvm] at hv
    exact hne (Option.some.inj hv).symm
  have hvec : blockTypes.blockLayout 3 4 =
      some [.memberOffset .block 0 0, .memberOffset .block 1 12] := by decide
  have hpacked : blockTypes.blockLayout 3 6 =
      some [.memberOffset .block 0 0, .memberOffset .block 1 4] := by decide
  constructor
  · exact ⟨by decide, hvec, by decide, hwrong 4 12 16 _ rfl rfl (by decide) (by decide) hvec⟩
  · exact ⟨by decide, hpacked, by decide, hwrong 6 4 1 _ rfl rfl (by decide) (by decide) hpacked⟩

end TypeTable

end Lagfx
