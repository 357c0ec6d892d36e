import Lagfx.SpvReflect

/-! The offset given to the bindings of the fragment stage, and what reflection makes of it. -/
namespace Lagfx
open InsertionSort WriteTable SpvBuilder

/-- The literal of an OpDecorate Binding, moved up. -/
def offsetOperands (base opcode : Nat) (args : List Nat) : List Nat :=
  if opcode = 71 ∧ 3 ≤ args.length ∧ args.getD 1 0 = 33 then
    args.set 2 ((args.getD 2 0+base)%2^32)
  else args

def offsetWords (base : Nat) : Nat → List Nat → List Nat
  | n+1, w :: ws =>
    let wc := w/65536%65536
    if wc = 0 ∨ ws.length+1 < wc then w :: ws
    else w :: (offsetOperands base (w%65536) (ws.take (wc-1))++offsetWords base n (ws.drop (wc-1)))
  | _, ws => ws

/-- lagfx_spv_offset_bindings. -/
def spvOffsetBindings (base : Nat) (spv : List Nat) : List Nat :=
  if spv.length < 5 ∨ base = 0 ∨ spv.getD 0 0 ≠ spvMagicWord then spv
  else spv.take 5++offsetWords base spv.length (spv.drop 5)

/- The words of an instruction list read back as the list, offset or not. -/

def Fits (i : Inst) : Prop := i.opcode < 65536 ∧ i.operands.length+1 < 65536

theorem header_parts {i : Inst} (hi : Fits i) :
    ((i.operands.length+1)*65536+i.opcode)/65536%65536 = i.operands.length+1 ∧
      ((i.operands.length+1)*65536+i.opcode)%65536 = i.opcode := by
  have hop := hi.1
  have hlen := hi.2
  omega

theorem scanInsts_words {is : List Inst} (hf : ∀ i ∈ is, Fits i) :
    ∀ n, (is.flatMap instWords).length ≤ n → scanInsts n (is.flatMap instWords) = is := by
  induction is with
  | nil =>
    intro n _
    cases n <;> rfl
  | cons i is ih =>
    intro n hn
    have hparts := header_parts (hf i List.mem_cons_self)
    have hwords : (i :: is).flatMap instWords =
        ((i.operands.length+1)*65536+i.opcode) :: (i.operands++is.flatMap instWords) := by
      rw [List.flatMap_cons]
      rfl
    rw [hwords] at hn ⊢
    cases n with
    | zero => exact absurd hn (by simp)
    | succ n =>
      rw [List.length_cons, List.length_append] at hn
      simp only [scanInsts, hparts.1, hparts.2, Nat.add_sub_cancel, List.length_append]
      rw [if_neg (by omega), List.take_left, List.drop_left,
        ih (fun j hj => hf j (List.mem_cons_of_mem i hj)) n (by omega)]

/-- An instruction with the literal of a Binding decoration moved up. -/
def offsetInst (base : Nat) (i : Inst) : Inst := ⟨i.opcode, offsetOperands base i.opcode i.operands⟩

theorem offsetOperands_length (base opcode : Nat) (args : List Nat) :
    (offsetOperands base opcode args).length = args.length := by
  rw [offsetOperands]
  split_ifs
  · rw [List.length_set]
  · rfl

theorem offsetWords_words (base : Nat) {is : List Inst} (hf : ∀ i ∈ is, Fits i) :
    ∀ n, (is.flatMap instWords).length ≤ n →
      offsetWords base n (is.flatMap instWords) = (is.map (offsetInst base)).flatMap instWords := by
  induction is with
  | nil =>
    intro n _
    cases n <;> rfl
  | cons i is ih =>
    intro n hn
    have hparts := header_parts (hf i List.mem_cons_self)
    have hwords : (i :: is).flatMap instWords =
        ((i.operands.length+1)*65536+i.opcode) :: (i.operands++is.flatMap instWords) := by
      rw [List.flatMap_cons]
      rfl
    rw [hwords] at hn ⊢
    cases n with
    | zero => exact absurd hn (by simp)
    | succ n =>
      rw [List.length_cons, List.length_append] at hn
      simp only [offsetWords, hparts.1, hparts.2, Nat.add_sub_cancel, List.length_append]
      rw [if_neg (by omega), List.take_left, List.drop_left,
        ih (fun j hj => hf j (List.mem_cons_of_mem i hj)) n (by omega), List.map_cons,
        List.flatMap_cons]
      simp only [instWords, offsetInst, offsetOperands_length, List.cons_append]

theorem offsetInst_fits {base : Nat} {i : Inst} (hi : Fits i) : Fits (offsetInst base i) := by
  refine ⟨hi.1, ?_⟩
  simp only [offsetInst, offsetOperands_length]
  exact hi.2

/-- The instructions of a blob with this header. -/
theorem blobInsts_words {header : List Nat} (hh : header.length = 4) {is : List Inst}
    (hf : ∀ i ∈ is, Fits i) : blobInsts (spvMagicWord :: header++is.flatMap instWords) = is := by
  have hdrop : (spvMagicWord :: header++is.flatMap instWords).drop 5 = is.flatMap instWords := by
    rw [List.cons_append, List.drop_succ_cons, ← hh, List.drop_left]
  have hlen : (spvMagicWord :: header++is.flatMap instWords).length =
      5+(is.flatMap instWords).length := by
    rw [List.cons_append, List.length_cons, List.length_append, hh]
    omega
  have hmagic : (spvMagicWord :: header++is.flatMap instWords).getD 0 0 = spvMagicWord := rfl
  rw [blobInsts, if_neg, hdrop, scanInsts_words hf _ (by omega)]
  intro hor
  obtain hor | hor := hor
  · omega
  · exact hor hmagic

theorem spvOffsetBindings_words (base : Nat) {header : List Nat} (hh : header.length = 4)
    {is : List Inst} (hf : ∀ i ∈ is, Fits i) (hb : base ≠ 0) :
    spvOffsetBindings base (spvMagicWord :: header++is.flatMap instWords) =
      spvMagicWord :: header++(is.map (offsetInst base)).flatMap instWords := by
  have hdrop : (spvMagicWord :: header++is.flatMap instWords).drop 5 = is.flatMap instWords := by
    rw [List.cons_append, List.drop_succ_cons, ← hh, List.drop_left]
  have htake : (spvMagicWord :: header++is.flatMap instWords).take 5 = spvMagicWord :: header := by
    rw [List.cons_append, List.take_succ_cons, ← hh, List.take_left]
  have hlen : (spvMagicWord :: header++is.flatMap instWords).length =
      5+(is.flatMap instWords).length := by
    rw [List.cons_append, List.length_cons, List.length_append, hh]
    omega
  have hmagic : (spvMagicWord :: header++is.flatMap instWords).getD 0 0 = spvMagicWord := rfl
  rw [spvOffsetBindings, if_neg, hdrop, htake, offsetWords_words base hf _ (by omega)]
  intro hor
  obtain hor | hor | hor := hor
  · omega
  · exact hb hor
  · exact hor hmagic

/- What the offset does to the tables. -/

theorem offsetInst_other {base : Nat} {i : Inst} (hi : i.opcode ≠ 71) : offsetInst base i = i := by
  rw [offsetInst, offsetOperands, if_neg (fun hc => hi hc.1)]

theorem offsetInst_arg {base : Nat} {i : Inst} {k : Nat} (hk : k ≠ 2) :
    instArg (offsetInst base i) k = instArg i k := by
  simp only [instArg, offsetInst, offsetOperands, List.getD_eq_getElem?_getD]
  split_ifs
  · rw [List.getElem?_set_ne (Ne.symm hk)]
  · rfl

theorem decorationWrite_offset (base : Nat) {dec : Nat} (hd : dec ≠ 33) (i : Inst) :
    decorationWrite dec (offsetInst base i) = decorationWrite dec i := by
  by_cases h33 : i.opcode = 71 ∧ 3 ≤ i.operands.length ∧ i.operands.getD 1 0 = 33
  · have hno : ∀ j : Inst, instArg j 1 = 33 → decorationWrite dec j = none := by
      intro j hj
      rw [decorationWrite, if_neg (fun hc => hd (hc.2.2.2.symm.trans hj))]
    rw [hno _ (by rw [offsetInst_arg (by decide)]; exact h33.2.2), hno i h33.2.2]
  · rw [offsetInst, offsetOperands, if_neg h33]

theorem bindingWrite_offset (base : Nat) (i : Inst) : decorationWrite 33 (offsetInst base i) =
    (decorationWrite 33 i).map fun p => (p.1, (p.2+base)%2^32) := by
  by_cases h33 : i.opcode = 71 ∧ 3 ≤ i.operands.length ∧ i.operands.getD 1 0 = 33
  · have h2 : instArg (offsetInst base i) 2 = (instArg i 2+base)%2^32 := by
      have hlt : 2 < i.operands.length := h33.2.1
      simp only [instArg, offsetInst, offsetOperands, if_pos h33]
      rw [List.getD_eq_getElem?_getD, List.getElem?_set_self hlt]
      rfl
    have hlen : (offsetInst base i).operands.length = i.operands.length :=
      offsetOperands_length base i.opcode i.operands
    rw [decorationWrite, decorationWrite, h2, offsetInst_arg (by decide),
      offsetInst_arg (by decide), hlen]
    by_cases hlt : instArg i 0 < maxId
    · rw [if_pos ⟨h33.1, h33.2.1, hlt, h33.2.2⟩, if_pos ⟨h33.1, h33.2.1, hlt, h33.2.2⟩]
      rfl
    · rw [if_neg (fun hc => hlt hc.2.2.1), if_neg (fun hc => hlt hc.2.2.1)]
      rfl
  · have hnone : decorationWrite 33 i = none := by
      rw [decorationWrite, if_neg]
      intro hc
      exact h33 ⟨hc.1, hc.2.1, hc.2.2.2⟩
    rw [offsetInst, offsetOperands, if_neg h33, hnone]
    rfl

def SpvBinding.offset (base : Nat) (b : SpvBinding) : SpvBinding :=
  { b with binding := (b.binding+base)%2^32 }

/-- Only the binding table moves. -/
theorem reflectTables_offset (base : Nat) (is : List Inst) :
    reflectTables (is.map (offsetInst base)) = { reflectTables is with
      binding := fun id => ((reflectTables is).binding id).map fun v => (v+base)%2^32 } := by
  have hother : ∀ {α : Type} (w : Inst → Option (Nat × α)),
      (∀ i, i.opcode = 71 → w (offsetInst base i) = w i) →
      table w (is.map (offsetInst base)) = table w is := by
    intro α w hw
    have hsame : (fun i => w (offsetInst base i)) = w := by
      funext i
      by_cases hi : i.opcode = 71
      · exact hw i hi
      · rw [offsetInst_other hi]
    rw [table_map, hsame]
  have hset : table (decorationWrite 34) (is.map (offsetInst base)) =
      table (decorationWrite 34) is :=
    hother _ fun i _ => decorationWrite_offset base (by decide) i
  have hbind : table (decorationWrite 33) (is.map (offsetInst base)) =
      fun id => (table (decorationWrite 33) is id).map fun v => (v+base)%2^32 := by
    funext id
    rw [table_map, ← table_values (decorationWrite 33) (fun v => (v+base)%2^32) is id]
    congr 1
    funext i
    exact bindingWrite_offset base i
  have hop : ∀ i, (offsetInst base i).opcode = i.opcode := fun _ => rfl
  have hvar : table variableWrite (is.map (offsetInst base)) = table variableWrite is :=
    hother _ fun i hi => by simp [variableWrite, hop, hi]
  have hptr : table pointerWrite (is.map (offsetInst base)) = table pointerWrite is :=
    hother _ fun i hi => by simp [pointerWrite, hop, hi]
  have htype : ∀ op, op ≠ 71 →
      table (typeWrite op) (is.map (offsetInst base)) = table (typeWrite op) is := by
    intro op hne
    exact hother _ fun i hi => by simp [typeWrite, hop, hi, Ne.symm hne]
  rw [reflectTables_eq, reflectTables_eq, hset, hbind, hvar, hptr, htype 25 (by decide),
    htype 27 (by decide), htype 26 (by decide), htype 30 (by decide)]

theorem bindingAt_offset (base : Nat) (is : List Inst) (id : Nat) :
    (reflectTables (is.map (offsetInst base))).bindingAt id =
      ((reflectTables is).bindingAt id).map (SpvBinding.offset base) := by
  rw [reflectTables_offset]
  simp only [ReflectTables.bindingAt]
  cases hv : (reflectTables is).var id with
  | none => rfl
  | some v =>
    cases hs : (reflectTables is).set id with
    | none => rfl
    | some set =>
      cases hb : (reflectTables is).binding id with
      | none => rfl
      | some binding =>
        simp only [Option.map_some]
        by_cases hk : (reflectTables is).kind (pointeeAt (reflectTables is).pointee v.1) v.2 =
            .unknown
        · have hk' : ReflectTables.kind { reflectTables is with
              binding := fun id => ((reflectTables is).binding id).map fun v => (v+base)%2^32 }
              (pointeeAt (reflectTables is).pointee v.1) v.2 = .unknown := hk
          rw [if_pos hk, if_pos hk']
          rfl
        · have hk' : ReflectTables.kind { reflectTables is with
              binding := fun id => ((reflectTables is).binding id).map fun v => (v+base)%2^32 }
              (pointeeAt (reflectTables is).pointee v.1) v.2 ≠ .unknown := hk
          rw [if_neg hk, if_neg hk']
          rfl

theorem foundBindings_offset (base : Nat) (is : List Inst) :
    foundBindings (is.map (offsetInst base)) = (foundBindings is).map (SpvBinding.offset base) := by
  rw [foundBindings, foundBindings, List.map_filterMap]
  congr 1
  funext id
  exact bindingAt_offset base is id

/-- The place of the literal of a Binding decoration. -/
def BindingLiteralAt (is : List Inst) (j : Nat) : Prop :=
  ∃ pre i post, is = pre++i :: post ∧ i.opcode = 71 ∧ instArg i 1 = 33 ∧
    j = 5+(pre.flatMap instWords).length+3

theorem instWords_offset {base : Nat} {i : Inst} {k : Nat}
    (hk : (instWords (offsetInst base i))[k]? ≠ (instWords i)[k]?) :
    k = 3 ∧ i.opcode = 71 ∧ instArg i 1 = 33 := by
  have hsame : instWords (offsetInst base i) =
      ((i.operands.length+1)*65536+i.opcode) :: offsetOperands base i.opcode i.operands := by
    simp only [instWords, offsetInst, offsetOperands_length]
  rw [hsame, instWords] at hk
  cases k with
  | zero => exact absurd rfl hk
  | succ k =>
    rw [List.getElem?_cons_succ, List.getElem?_cons_succ, offsetOperands] at hk
    split_ifs at hk with hc
    · by_cases h2 : k = 2
      · exact ⟨by omega, hc.1, hc.2.2⟩
      · exact absurd (List.getElem?_set_ne (Ne.symm h2)) hk
    · exact absurd rfl hk

/-- Among the words of the instructions only literals of Binding decorations change. -/
theorem words_offset {base : Nat} (is : List Inst) :
    ∀ k, ((is.map (offsetInst base)).flatMap instWords)[k]? ≠ (is.flatMap instWords)[k]? →
      BindingLiteralAt is (5+k) := by
  induction is with
  | nil => exact fun k hk => absurd rfl hk
  | cons i is ih =>
    intro k hk
    have hlen : (instWords (offsetInst base i)).length = (instWords i).length := by
      simp only [instWords, offsetInst, List.length_cons, offsetOperands_length]
    rw [List.map_cons, List.flatMap_cons, List.flatMap_cons] at hk
    by_cases hlt : k < (instWords i).length
    · rw [List.getElem?_append_left (by rw [hlen]; exact hlt),
        List.getElem?_append_left hlt] at hk
      obtain ⟨rfl, ho, h1⟩ := instWords_offset hk
      exact ⟨[], i, is, rfl, ho, h1, rfl⟩
    · rw [List.getElem?_append_right (by rw [hlen]; omega),
        List.getElem?_append_right (by omega), hlen] at hk
      obtain ⟨pre, j, post, rfl, ho, h1, hplace⟩ := ih _ hk
      refine ⟨i :: pre, j, post, rfl, ho, h1, ?_⟩
      rw [List.flatMap_cons, List.length_append]
      omega

/-- The bindings whose ids are in the tables. -/
def DeclaresBelow (is : List Inst) (id : Nat) (b : SpvBinding) : Prop :=
  id < maxId ∧ ∃ ptr storage pointee, ptr < maxId ∧ pointee < maxId ∧
    DeclaresBinding is id ptr storage pointee b

/-- The inputs whose variable is in the tables. -/
def DeclaresInputBelow (is : List Inst) (id : Nat) (a : Nat × Nat) : Prop :=
  id < maxId ∧ ∃ ptr, DeclaresInput is id ptr a

section wellformed
variable {spv : List Nat} {is : List Inst} (h : WellFormedModule spv is)
include h

theorem WellFormedModule.insts_eq : blobInsts spv = is := by
  obtain ⟨header, hh, rfl⟩ := h.words
  exact blobInsts_words hh h.fits

/-- Descriptor bindings, one cap at a time. -/
theorem WellFormedModule.reflects_bindings (cap : Nat) :
    ReflectsFirst (DeclaresBelow is) bindingAfter cap (spvReflectBindings spv cap) := by
  rw [spvReflectBindings, h.insts_eq]
  refine reflectsFirst_sort bindingAfter_order ?_ cap
  intro id b
  rw [h.bindingAt_iff]
  exact and_iff_right_of_imp And.left

theorem WellFormedModule.reflects_inputs (cap : Nat) :
    ReflectsFirst (DeclaresInputBelow is) inputAfter cap (spvReflectVertexInputs spv cap) := by
  rw [spvReflectVertexInputs, h.insts_eq]
  refine reflectsFirst_sort inputAfter_order ?_ cap
  intro id a
  rw [h.inputAt_iff]
  exact and_iff_right_of_imp And.left

/-- Each binding found is declared under an id of the tables. -/
theorem WellFormedModule.found_declared {b : SpvBinding} (hb : b ∈ foundBindings is) :
    ∃ id, DeclaresBelow is id b := by
  obtain ⟨id, -, hat⟩ := List.mem_filterMap.mp hb
  exact ⟨id, h.bindingAt_iff.1 hat⟩

/-- After the offset the list is the same with each binding moved up. -/
theorem WellFormedModule.reflects_offset (base cap : Nat)
    (hover : ∀ id b, DeclaresBelow is id b → b.binding+base < 2^32) :
    spvReflectBindings (spvOffsetBindings base spv) cap = ((spvReflectBindings spv cap).1,
      (spvReflectBindings spv cap).2.map fun b => { b with binding := b.binding+base }) := by
  have hinsts : blobInsts (spvOffsetBindings base spv) = if base = 0 then is
      else is.map (offsetInst base) := by
    by_cases hb : base = 0
    · rw [spvOffsetBindings, if_pos (.inr (.inl hb)), if_pos hb, h.insts_eq]
    · obtain ⟨header, hh, rfl⟩ := h.words
      rw [spvOffsetBindings_words base hh h.fits hb, if_neg hb]
      refine blobInsts_words hh ?_
      intro i hi
      obtain ⟨j, hj, rfl⟩ := List.mem_map.mp hi
      exact offsetInst_fits (h.fits j hj)
  have hfound : foundBindings (blobInsts (spvOffsetBindings base spv)) =
      (foundBindings is).map fun b => { b with binding := b.binding+base } := by
    rw [hinsts]
    by_cases hb : base = 0
    · rw [if_pos hb, hb]
      exact (List.map_id _).symm
    · rw [if_neg hb, foundBindings_offset]
      refine List.map_congr_left fun b hmem => ?_
      obtain ⟨id, hdecl⟩ := h.found_declared hmem
      rw [SpvBinding.offset, Nat.mod_eq_of_lt (hover id b hdecl)]
  rw [spvReflectBindings, spvReflectBindings, hfound, h.insts_eq, List.length_map, ← List.map_take]
  generalize foundBindings is = found
  have hsort : sort bindingAfter ((found.take cap).map fun b =>
      ({ b with binding := b.binding+base } : SpvBinding)) =
      (sort bindingAfter (found.take cap)).map fun b => { b with binding := b.binding+base } := by
    refine sort_map _ _ ?_
    intro x _ y _
    simp only [bindingAfter]
    omega
  rw [hsort]

theorem WellFormedModule.offset_changes (base : Nat) {j : Nat}
    (hj : (spvOffsetBindings base spv)[j]? ≠ spv[j]?) : BindingLiteralAt is j := by
  by_cases hb : base = 0
  · rw [spvOffsetBindings, if_pos (.inr (.inl hb))] at hj
    exact absurd rfl hj
  · obtain ⟨header, hh, rfl⟩ := h.words
    rw [spvOffsetBindings_words base hh h.fits hb] at hj
    have hlen : (spvMagicWord :: header).length = 5 := by rw [List.length_cons, hh]
    by_cases hlt : j < 5
    · rw [List.getElem?_append_left (by omega), List.getElem?_append_left (by omega)] at hj
      exact absurd rfl hj
    · rw [List.getElem?_append_right (by omega), List.getElem?_append_right (by omega), hlen] at hj
      have hlit := words_offset is (j-5) hj
      rw [show 5+(j-5) = j by omega] at hlit
      exact hlit

end wellformed

/-- Reflection of a well-formed module: exact on the ids of the tables, cut by id at the cap,
and moved by the offset with nothing else changed. -/
theorem reflection_exact {spv : List Nat} {is : List Inst} (h : WellFormedModule spv is) :
    (∀ cap, ReflectsFirst (DeclaresBelow is) bindingAfter cap (spvReflectBindings spv cap)) ∧
      (∀ cap, ReflectsFirst (DeclaresInputBelow is) inputAfter cap
        (spvReflectVertexInputs spv cap)) ∧
      ∀ base,
        ((∀ id b, DeclaresBelow is id b → b.binding+base < 2^32) → ∀ cap,
          spvReflectBindings (spvOffsetBindings base spv) cap = ((spvReflectBindings spv cap).1,
            (spvReflectBindings spv cap).2.map fun b => { b with binding := b.binding+base })) ∧
        ∀ j : Nat, (spvOffsetBindings base spv)[j]? ≠ spv[j]? → BindingLiteralAt is j :=
  ⟨h.reflects_bindings, h.reflects_inputs, fun base =>
    ⟨fun hover cap => h.reflects_offset base cap hover, fun _ hj => h.offset_changes base hj⟩⟩

/- Two storage buffers of one struct: binding 3 under the smaller id, binding 1 after it. -/

def twoBufferInsts : List Inst :=
  [⟨71, [5, 34, 0]⟩, ⟨71, [5, 33, 3]⟩, ⟨71, [6, 34, 0]⟩, ⟨71, [6, 33, 1]⟩, ⟨22, [7, 32]⟩,
    ⟨30, [1, 7]⟩, ⟨32, [2, 12, 1]⟩, ⟨59, [2, 5, 12]⟩, ⟨59, [2, 6, 12]⟩]

def twoBuffers : List Nat := spvMagicWord :: [0x10400, 0, 8, 0]++twoBufferInsts.flatMap instWords

theorem twoBuffers_wellFormed : WellFormedModule twoBuffers twoBufferInsts where
  words := ⟨[0x10400, 0, 8, 0], rfl, rfl⟩
  fits := by decide
  least := by decide
  ids := by decide
  nonzero := by decide
  once := by decide
  vectors := by decide

theorem reflection_of_twoBuffers :
    ReflectsFirst (DeclaresBelow twoBufferInsts) bindingAfter 1 (spvReflectBindings twoBuffers 1) :=
  (reflection_exact twoBuffers_wellFormed).1 1

/-- The one binding written is not the smallest. -/
theorem smallest_binding_cut : WellFormedModule twoBuffers twoBufferInsts ∧ ¬ ReflectsSmallest
    (fun id b => ∃ ptr storage pointee, DeclaresBinding twoBufferInsts id ptr storage pointee b)
    bindingAfter 1 (spvReflectBindings twoBuffers 1) := by
  refine ⟨twoBuffers_wellFormed, ?_⟩
  intro hsmall
  obtain ⟨found, rest, -, hiff, -, hperm, -, -, hcut⟩ := hsmall
  have hwritten : (spvReflectBindings twoBuffers 1).2 = [⟨0, 3, .storageBuffer⟩] := by
    decide +kernel
  have hdecl : (6, (⟨0, 1, .storageBuffer⟩ : SpvBinding)) ∈ found := by
    refine (hiff _ _).2 ⟨2, 12, 1, ?_⟩
    exact ⟨⟨⟨59, [2, 6, 12]⟩, by decide, by decide⟩, ⟨⟨71, [6, 34, 0]⟩, by decide, by decide⟩,
      ⟨⟨71, [6, 33, 1]⟩, by decide, by decide⟩, ⟨⟨32, [2, 12, 1]⟩, by decide, by decide⟩,
      .storageBuffer ⟨⟨30, [1, 7]⟩, by decide, by decide⟩ rfl⟩
  have hmem := hperm.mem_iff.2 (List.mem_map_of_mem hdecl)
  rw [hwritten] at hmem hcut
  obtain hmem | hmem := List.mem_append.1 hmem
  · exact absurd (List.mem_singleton.1 hmem) (by decide)
  · exact absurd (hcut _ (List.mem_singleton.2 rfl) _ hmem) (by decide)

end Lagfx
