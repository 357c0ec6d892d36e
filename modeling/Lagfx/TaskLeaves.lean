import Lagfx.TaskTranslate

/-! The leaves of the per-task radix tree: the block of addresses that each of them maps. -/
namespace Lagfx
open ByteMemory

variable {s : State} {task : TaskEntry}

/-- The PTE for an address in a node with `level` interior levels left. -/
def pteAt (s : State) (devAddr level nodePfn : Nat) : Option Nat :=
  (s.readMemory (nodePfn*2^12+devAddr/2^12/2^(level*10)%1024*4) 4).map (le32 · 0)

/-- The walk from a node ends at a leaf PTE, with `shift` bits of the page number left over,
and data page `pfn`. -/
inductive Leaf (s : State) (devAddr : Nat) : Nat → Nat → Nat → Nat → Prop where
  | last {node pte : Nat} (h : pteAt s devAddr 0 node = some pte) (hz : pte ≠ 0) :
    Leaf s devAddr 0 node 0 (pte%2^31)
  | early {level node pte : Nat} (h : pteAt s devAddr (level+1) node = some pte)
    (hl : 2^31 ≤ pte) : Leaf s devAddr (level+1) node ((level+1)*10) (pte%2^31)
  | next {level node pte shift pfn : Nat} (h : pteAt s devAddr (level+1) node = some pte)
    (hz : pte ≠ 0) (hl : pte < 2^31) (hrest : Leaf s devAddr level pte shift pfn) :
    Leaf s devAddr (level+1) node shift pfn

/-- The walk from a node meets a read that fails or a PTE of zero. -/
inductive Stuck (s : State) (devAddr : Nat) : Nat → Nat → Prop where
  | unread {level node : Nat} (h : pteAt s devAddr level node = none) : Stuck s devAddr level node
  | zero {level node : Nat} (h : pteAt s devAddr level node = some 0) : Stuck s devAddr level node
  | next {level node pte : Nat} (h : pteAt s devAddr (level+1) node = some pte) (hz : pte ≠ 0)
    (hl : pte < 2^31) (hrest : Stuck s devAddr level pte) : Stuck s devAddr (level+1) node

/-- The header of a task's tree: the first node, and 1 to 4 levels. -/
structure TreeHeader (s : State) (task : TaskEntry) (l1Pfn levels : Nat) : Prop where
  root : task.rootPagePfn ≠ 0
  read : ∃ header, s.readMemory (task.rootPagePfn*2^12) 8 = some header ∧
    le32 header 0 = l1Pfn ∧ le32 header 4 = levels
  node : l1Pfn ≠ 0
  one : 1 ≤ levels
  four : levels ≤ 4

def TaskLeaf (s : State) (task : TaskEntry) (devAddr shift pfn : Nat) : Prop :=
  ∃ l1Pfn levels, TreeHeader s task l1Pfn levels ∧ Leaf s devAddr (levels-1) l1Pfn shift pfn

/- The root page is 0, the header cannot be read or is invalid, or the walk is stuck. -/
def TaskStuck (s : State) (task : TaskEntry) (devAddr : Nat) : Prop :=
  ∀ l1Pfn levels, TreeHeader s task l1Pfn levels → Stuck s devAddr (levels-1) l1Pfn

theorem Leaf.walk {devAddr level node shift pfn : Nat} (h : Leaf s devAddr level node shift pfn) :
    radixWalk s devAddr level node = some (pfn*2^12 ||| devAddr%2^(shift+12)) := by
  induction h with
  | last h hz =>
    rw [pteAt, Nat.zero_mul, Nat.pow_zero, Nat.div_one] at h
    obtain ⟨b, hb, rfl⟩ := Option.map_eq_some_iff.1 h
    simp only [radixWalk, hb]
    rw [if_neg hz, Nat.zero_add]
  | early h hl =>
    obtain ⟨b, hb, rfl⟩ := Option.map_eq_some_iff.1 h
    simp only [radixWalk, hb]
    rw [if_neg (by omega), if_pos hl]
  | next h hz hl hrest ih =>
    obtain ⟨b, hb, rfl⟩ := Option.map_eq_some_iff.1 h
    simp only [radixWalk, hb]
    rw [if_neg hz, if_neg (by omega), Nat.mod_eq_of_lt hl]
    exact ih

theorem Stuck.walk {devAddr level node : Nat} (h : Stuck s devAddr level node) :
    radixWalk s devAddr level node = none := by
  induction h with
  | @unread level node h =>
    have hb := Option.map_eq_none_iff.1 h
    cases level with
    | zero =>
      rw [Nat.zero_mul, Nat.pow_zero, Nat.div_one] at hb
      simp only [radixWalk, hb]
    | succ level => simp only [radixWalk, hb]
  | @zero level node h =>
    obtain ⟨b, hb, hz⟩ := Option.map_eq_some_iff.1 h
    cases level with
    | zero =>
      rw [Nat.zero_mul, Nat.pow_zero, Nat.div_one] at hb
      simp only [radixWalk, hb, hz, if_true]
    | succ level => simp only [radixWalk, hb, hz, if_true]
  | next h hz hl hrest ih =>
    obtain ⟨b, hb, rfl⟩ := Option.map_eq_some_iff.1 h
    simp only [radixWalk, hb]
    rw [if_neg hz, if_neg (by omega), Nat.mod_eq_of_lt hl]
    exact ih

/-- Each walk ends one way. -/
theorem leaf_or_stuck (s : State) (devAddr level node : Nat) :
    (∃ shift pfn, Leaf s devAddr level node shift pfn) ∨ Stuck s devAddr level node := by
  induction level generalizing node with
  | zero =>
    cases h : pteAt s devAddr 0 node with
    | none => exact .inr (.unread h)
    | some pte =>
      by_cases hz : pte = 0
      · exact .inr (.zero (hz ▸ h))
      · exact .inl ⟨_, _, .last h hz⟩
  | succ level ih =>
    cases h : pteAt s devAddr (level+1) node with
    | none => exact .inr (.unread h)
    | some pte =>
      by_cases hz : pte = 0
      · exact .inr (.zero (hz ▸ h))
      by_cases hl : pte < 2^31
      · cases ih pte with
        | inl hleaf =>
          obtain ⟨shift, pfn, hrest⟩ := hleaf
          exact .inl ⟨shift, pfn, .next h hz hl hrest⟩
        | inr hstuck => exact .inr (.next h hz hl hstuck)
      · exact .inl ⟨_, _, .early h (Nat.not_lt.1 hl)⟩

theorem Leaf.shift_le {devAddr level node shift pfn : Nat}
    (h : Leaf s devAddr level node shift pfn) : shift ≤ level*10 := by
  induction h with
  | last => exact Nat.le_refl _
  | early => exact Nat.le_refl _
  | next _ _ _ _ ih => omega

/-- The walk to a leaf looks only at the bits above the block of the leaf. -/
theorem Leaf.same_block {va va' level node shift pfn : Nat}
    (h : Leaf s va level node shift pfn) (heq : va/2^(shift+12) = va'/2^(shift+12)) :
    Leaf s va' level node shift pfn := by
  have hpte : ∀ k, shift ≤ k*10 → ∀ node, pteAt s va' k node = pteAt s va k node := by
    intro k hk node
    have hdiv : ∀ x, x/2^12/2^(k*10) = x/2^(shift+12)/2^(k*10-shift) := by
      intro x
      rw [Nat.div_div_eq_div_mul, Nat.div_div_eq_div_mul, ← pow_add, ← pow_add]
      congr 2
      omega
    rw [pteAt, pteAt, hdiv va, hdiv va', heq]
  induction h with
  | last h hz => exact .last ((hpte 0 (Nat.zero_le _) _).trans h) hz
  | early h hl => exact .early ((hpte _ (Nat.le_refl _) _).trans h) hl
  | @next level node pte shift pfn h hz hl hrest ih =>
    refine .next ((hpte _ ?_ _).trans h) hz hl (ih heq hpte)
    exact Nat.le_trans hrest.shift_le (by omega)

theorem TreeHeader.translate {l1Pfn levels : Nat} (h : TreeHeader s task l1Pfn levels)
    (devAddr : Nat) : taskTranslate s task devAddr = radixWalk s devAddr (levels-1) l1Pfn := by
  obtain ⟨header, hread, hl1, hlev⟩ := h.read
  have hbad : ¬(l1Pfn = 0 ∨ levels = 0 ∨ 4 < levels) := by
    have h1 := h.node
    have h2 := h.one
    have h3 := h.four
    omega
  simp only [taskTranslate, if_neg h.root, hread, hl1, hlev, if_neg hbad]

/-- The address reaches a leaf, or its translation fails. -/
theorem taskTranslate_none_iff (devAddr : Nat) :
    taskTranslate s task devAddr = none ↔ TaskStuck s task devAddr := by
  constructor
  · intro hnone l1Pfn levels hh
    rw [hh.translate] at hnone
    cases leaf_or_stuck s devAddr (levels-1) l1Pfn with
    | inl hleaf =>
      obtain ⟨shift, pfn, hleaf⟩ := hleaf
      rw [hleaf.walk] at hnone
      cases hnone
    | inr hstuck => exact hstuck
  · intro hstuck
    by_contra hsome
    by_cases hh : ∃ l1Pfn levels, TreeHeader s task l1Pfn levels
    · obtain ⟨l1Pfn, levels, hh⟩ := hh
      exact hsome ((hh.translate devAddr).trans (hstuck _ _ hh).walk)
    · refine hsome ?_
      rw [taskTranslate]
      split_ifs with hroot
      · rfl
      · split
        · rfl
        · rename_i header hread
          dsimp only
          split_ifs with hbad
          · rfl
          · refine absurd ⟨_, _, ⟨hroot, ⟨header, hread, rfl, rfl⟩, ?_, ?_, ?_⟩⟩ hh <;> omega

theorem TreeHeader.unique {l1 l1' levels levels' : Nat} (h : TreeHeader s task l1 levels)
    (h' : TreeHeader s task l1' levels') : l1 = l1' ∧ levels = levels' := by
  obtain ⟨header, hread, hl1, hlev⟩ := h.read
  obtain ⟨header', hread', hl1', hlev'⟩ := h'.read
  rw [hread] at hread'
  cases hread'
  exact ⟨hl1.symm.trans hl1', hlev.symm.trans hlev'⟩

theorem TaskLeaf.translate {devAddr shift pfn : Nat} (h : TaskLeaf s task devAddr shift pfn) :
    taskTranslate s task devAddr = some (pfn*2^12 ||| devAddr%2^(shift+12)) := by
  obtain ⟨l1Pfn, levels, hh, hleaf⟩ := h
  exact (hh.translate devAddr).trans hleaf.walk

theorem TaskLeaf.same_block {va va' shift pfn : Nat} (h : TaskLeaf s task va shift pfn)
    (heq : va/2^(shift+12) = va'/2^(shift+12)) : TaskLeaf s task va' shift pfn := by
  obtain ⟨l1Pfn, levels, hh, hleaf⟩ := h
  exact ⟨l1Pfn, levels, hh, hleaf.same_block heq⟩

/-- Each leaf maps one contiguous block, translation keeps the low 12 bits, and it fails
exactly where the walk is stuck. -/
structure LeavesContiguous (s : State) (task : TaskEntry) : Prop where
  value : ∀ devAddr < 2^64, ∀ shift pfn, TaskLeaf s task devAddr shift pfn →
    taskTranslate s task devAddr = some (pfn*2^12+devAddr%2^(shift+12))
  inside : ∀ va < 2^64, ∀ va' < 2^64, ∀ shift pfn, TaskLeaf s task va shift pfn →
    va/2^(shift+12) = va'/2^(shift+12) → ∃ gpa gpa', taskTranslate s task va = some gpa ∧
      taskTranslate s task va' = some gpa' ∧ gpa+va' = gpa'+va
  low : ∀ devAddr < 2^64, ∀ gpa, taskTranslate s task devAddr = some gpa →
    gpa%2^12 = devAddr%2^12
  fails : ∀ devAddr < 2^64, taskTranslate s task devAddr = none ↔ TaskStuck s task devAddr

theorem or_block {pfn shift off : Nat} (h : pfn%2^shift = 0) (ho : off < 2^(shift+12)) :
    pfn*2^12 ||| off = pfn*2^12+off := by
  have hpfn : pfn*2^12 = 2^(shift+12)*(pfn/2^shift) := by
    conv_lhs => rw [← Nat.div_add_mod pfn (2^shift), h, Nat.add_zero]
    rw [pow_add]
    ring
  rw [hpfn]
  exact (Nat.two_pow_add_eq_or_of_lt ho _).symm

/-- The bits that the data page has below the shift are lost. -/
theorem or_low_bits (pfn shift : Nat) : pfn*2^12 ||| pfn%2^shift*2^12 = pfn*2^12 := by
  refine Nat.eq_of_testBit_eq fun i => ?_
  rw [Nat.testBit_or, Nat.testBit_mul_two_pow, Nat.testBit_mul_two_pow, Nat.testBit_mod_two_pow]
  cases decide (12 ≤ i) <;> cases pfn.testBit (i-12) <;> simp

theorem block_offset_lt (pfn shift : Nat) : pfn%2^shift*2^12 < 2^(shift+12) := by
  have hlt : pfn%2^shift < 2^shift := Nat.mod_lt _ (by positivity)
  calc pfn%2^shift*2^12 < 2^shift*2^12 := by gcongr
    _ = 2^(shift+12) := (pow_add ..).symm

/-- For every task and memory: the leaves map contiguous blocks if and only if the data page
of each leaf is aligned to the block that the leaf maps. -/
theorem leavesContiguous_iff (s : State) (task : TaskEntry) :
    LeavesContiguous s task ↔
      ∀ devAddr < 2^64, ∀ shift pfn, TaskLeaf s task devAddr shift pfn → pfn%2^shift = 0 := by
  constructor
  · intro h devAddr hva shift pfn hleaf
    -- the address of the block whose offset repeats the low bits of the data page
    have hpos : 0 < 2^(shift+12) := by positivity
    obtain ⟨va, hvadef⟩ : ∃ va, va = 2^(shift+12)*(devAddr/2^(shift+12))+pfn%2^shift*2^12 :=
      ⟨_, rfl⟩
    have hoff := block_offset_lt pfn shift
    have hdiv : va/2^(shift+12) = devAddr/2^(shift+12) := by
      rw [hvadef, Nat.mul_add_div hpos, Nat.div_eq_of_lt hoff, Nat.add_zero]
    have hmod : va%2^(shift+12) = pfn%2^shift*2^12 := by
      rw [hvadef, Nat.mul_add_mod, Nat.mod_eq_of_lt hoff]
    have hlt : va < 2^64 := by
      obtain ⟨l1Pfn, levels, hh, hl⟩ := hleaf
      have hs := hl.shift_le
      have h4 := hh.four
      have hdvd : 2^64 = 2^(shift+12)*2^(52-shift) := by
        rw [← pow_add]
        congr 1
        omega
      rw [hdvd] at hva ⊢
      have hq : va/2^(shift+12) < 2^(52-shift) := hdiv ▸ Nat.div_lt_of_lt_mul hva
      rw [Nat.mul_comm]
      exact (Nat.div_lt_iff_lt_mul hpos).1 hq
    have hleaf' := hleaf.same_block hdiv.symm
    have hval := h.value va hlt shift pfn hleaf'
    rw [hleaf'.translate, hmod, or_low_bits, Option.some.injEq] at hval
    omega
  · intro h
    have hvalue : ∀ devAddr < 2^64, ∀ shift pfn, TaskLeaf s task devAddr shift pfn →
        taskTranslate s task devAddr = some (pfn*2^12+devAddr%2^(shift+12)) := by
      intro devAddr hva shift pfn hleaf
      rw [hleaf.translate, or_block (h devAddr hva shift pfn hleaf)
        (Nat.mod_lt _ (by positivity))]
    refine ⟨hvalue, ?_, fun devAddr _ gpa => taskTranslate_mod,
      fun devAddr _ => taskTranslate_none_iff devAddr⟩
    intro va hva va' hva' shift pfn hleaf heq
    refine ⟨_, _, hvalue va hva shift pfn hleaf,
      hvalue va' hva' shift pfn (hleaf.same_block heq), ?_⟩
    have h1 := Nat.div_add_mod va (2^(shift+12))
    have h2 := Nat.div_add_mod va' (2^(shift+12))
    rw [heq] at h1
    omega

/- The PTE 0x80000001 ends the walk at the first of two levels: 4 MiB from page 1 on. -/
def unalignedMem : Nat → UInt8 := fun a =>
  if a = 0x1000 then 2 else if a = 0x1004 then 2 else if a = 0x2000 then 1
  else if a = 0x2003 then 0x80 else 0

def unalignedTask : TaskEntry := { rootPagePfn := 1 }

theorem unaligned_leaf_overlaps : ¬LeavesContiguous { mem := unalignedMem } unalignedTask := by
  intro h
  have hleaf : TaskLeaf { mem := unalignedMem } unalignedTask 0x1000 10 1 :=
    ⟨2, 2, ⟨by decide, ⟨_, rfl, by decide, by decide⟩, by decide, by decide, by decide⟩,
      .early (by decide) (by decide : 2^31 ≤ 2^31+1)⟩
  have hval := h.value 0x1000 (by decide) 10 1 hleaf
  have hgpa : taskTranslate { mem := unalignedMem } unalignedTask 0x1000 = some 0x1000 := by decide
  rw [hgpa] at hval
  exact absurd hval (by decide)

end Lagfx
