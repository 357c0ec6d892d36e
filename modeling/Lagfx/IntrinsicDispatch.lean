import Lagfx.IntrinsicNames

/-! Which names of intrinsics are given the operation they stand for. -/
namespace Lagfx
open PrefixTable

/- The table under one spelling. -/

theorem clash {k p : List UInt8} (hp : ¬p <+: k) (hk : ¬k <+: p) (u : List UInt8) :
    ¬p <+: k++u := fun h =>
  (List.prefix_or_prefix_of_prefix h (List.prefix_append k u)).elim hp hk

theorem lookup_spelled {f : Spelling} {op rest : List UInt8} (hf : f ≠ .plain)
    (h : Spells f op rest) : lookup intrinsicTable (f.key++(op++rest)) = lookup (rowsOf f) op := by
  obtain ⟨hcut, hfree, -⟩ := intrinsicTable_checked.2.1 f (mem_spellings f)
  rw [lookup_append hcut]
  exact lookup_congr fun r hr => prefix_part (hfree hf r hr) h.rest_ends

theorem respelled_clash {op rest key : List UInt8} (h : Spells .plain op rest)
    (hkey : respelled key = true) : ¬key <+: op++rest := by
  intro hle
  obtain ⟨hfast, hprecise, hfastBar, hpreciseBar⟩ := h.plain_op rfl
  simp only [respelled, Bool.or_eq_true, List.isPrefixOf_iff_prefix] at hkey
  rcases hkey with ((hk | hk) | hk) | hk
  · exact hfastBar ((prefix_part (by decide) h.rest_ends).1 (hk.trans hle))
  · exact hpreciseBar ((prefix_part (by decide) h.rest_ends).1 (hk.trans hle))
  · have hsep := (prefix_sep (p := cstr "fast") (by decide) h.op_free h.rest_ends).1
      (hk.trans hle)
    exact hfast hsep.1.symm
  · have hsep := (prefix_sep (p := cstr "precise") (by decide) h.op_free h.rest_ends).1
      (hk.trans hle)
    exact hprecise hsep.1.symm

/-- A key that ends with the dot is the whole name of an operation. -/
theorem plain_sep {op rest : List UInt8} (h : Spells .plain op rest) {key : List UInt8}
    (hkey : charDot ∉ key) : key++[charDot] <+: op++rest ↔ op = key := by
  rw [prefix_sep hkey h.op_free h.rest_ends, eq_comm]
  exact and_iff_left (h.plain_suffix rfl)

theorem lookup_plain {op rest : List UInt8} (h : Spells .plain op rest) :
    lookup intrinsicTable (Spelling.plain.key++(op++rest)) =
      if cstr "mix" <+: op then some ⟨.fmix, 3⟩
      else if op = cstr "fma" then some ⟨.fma, 3⟩
      else if op = cstr "sign" then some ⟨.fsign, 1⟩
      else none := by
  obtain ⟨hcut, -⟩ := intrinsicTable_checked.2.1 .plain (mem_spellings .plain)
  have hmix : cstr "mix" <+: op++rest ↔ cstr "mix" <+: op := prefix_part (by decide) h.rest_ends
  rw [lookup_append hcut, ← rowsOf, ← lookup_filter (fun r => !respelled r.1),
    intrinsicTable_checked.2.2]
  · simp only [plainRows, lookup_cons]
    rw [show cstr "fma." = cstr "fma"++[charDot] from rfl,
      show cstr "sign." = cstr "sign"++[charDot] from rfl]
    simp only [hmix, plain_sep h (show charDot ∉ cstr "fma" by decide),
      plain_sep h (show charDot ∉ cstr "sign" by decide)]
    rfl
  · intro r _ hr
    exact respelled_clash h (by simpa using hr)

/- The special cases under one spelling. -/

theorem starts_iff {key : String} {name : List UInt8} :
    starts key name = true ↔ cstr key <+: name :=
  List.isPrefixOf_iff_prefix

theorem starts_eq {key : String} {name : List UInt8} {p : Prop} [Decidable p]
    (h : cstr key <+: name ↔ p) : starts key name = decide p := by
  rw [Bool.eq_iff_iff, starts_iff, h, decide_eq_true_iff]

theorem findSome_none {α : Type} (l : List (Option α)) :
    (none::l).findSome? id = l.findSome? id :=
  rfl

theorem findSome_ite {α : Type} (c : Prop) [Decidable c] (a : α) (l : List (Option α)) :
    ((if c then some a else none)::l).findSome? id = if c then some a else l.findSome? id := by
  by_cases hc : c
  · rw [if_pos hc, if_pos hc, List.findSome?_cons_of_isSome rfl]
    rfl
  · rw [if_neg hc, if_neg hc, List.findSome?_cons_of_isNone rfl]

/-- What the special cases look for, but for two spellings of saturate. -/
def plainKeys : List String :=
  ["air.convert.", "air.dot.", "air.saturate", "air.sample_texture_2d", "air.sample_texture_3d",
   "air.read_texture_2d", "air.any.", "air.all.", "air.dfdx.", "air.dfdy.", "air.fwidth."]

-- one evaluation for all spellings
theorem plainKeys_clash : ∀ f ∈ spellings, f ≠ .plain → ∀ key ∈ plainKeys,
    ¬cstr key <+: f.key ∧ ¬f.key <+: cstr key := by
  decide

theorem starts_plainKeys {f : Spelling} (hf : f ≠ .plain) (u : List UInt8) :
    ∀ key ∈ plainKeys, starts key (f.key++u) = false := by
  have hclash := plainKeys_clash f (mem_spellings f) hf
  intro key hkey
  rw [← Bool.not_eq_true, starts_iff]
  exact clash (hclash key hkey).1 (hclash key hkey).2 u

/-- Under the spellings other than `air.` only saturate is special. -/
theorem special_respelled {s : CallSite} {f : Spelling} (hf : f ≠ .plain) (u : List UInt8)
    (hhas : s.has 1) (hty : s.resultTyAir ≠ airTypeNone) :
    (specialLowering s (f.key++u)).findSome? id =
      if (starts "air.fast_saturate" (f.key++u) || starts "air.precise_saturate" (f.key++u)) = true
      then some .saturate else none := by
  have h := starts_plainKeys hf u
  simp only [plainKeys, List.forall_mem_cons, List.not_mem_nil, false_imp_iff, implies_true,
    and_true] at h
  obtain ⟨hconvert, hdot, hsaturate, h2d, h3d, hread, hany, hall, hdfdx, hdfdy, hfwidth⟩ := h
  simp only [specialLowering, hconvert, hdot, hsaturate, h2d, h3d, hread, hany, hall, hdfdx, hdfdy,
    hfwidth, hhas, hty, Bool.or_false, Bool.false_eq_true, false_and, if_false, ne_eq, not_false_eq_true,
    and_true]
  split_ifs <;> rfl

section
variable {op rest : List UInt8} (h : Spells .plain op rest)
include h

theorem starts_plain_whole (key : String) (word : List UInt8)
    (hkey : cstr key = Spelling.plain.key++(word++[charDot])) (hfree : charDot ∉ word) :
    starts key (Spelling.plain.key++(op++rest)) = decide (op = word) := by
  refine starts_eq ?_
  rw [hkey, List.prefix_append_right_inj, plain_sep h hfree]

theorem starts_plain_open (key : String) (word : List UInt8)
    (hkey : cstr key = Spelling.plain.key++word) (hfree : charDot ∉ word) :
    starts key (Spelling.plain.key++(op++rest)) = decide (word <+: op) := by
  refine starts_eq ?_
  rw [hkey, List.prefix_append_right_inj, prefix_part hfree h.rest_ends]

theorem starts_plain_respelled (key : String) (word : List UInt8)
    (hkey : cstr key = Spelling.plain.key++word) (hword : respelled word = true) :
    starts key (Spelling.plain.key++(op++rest)) = false := by
  rw [← Bool.not_eq_true, starts_iff, hkey, List.prefix_append_right_inj]
  exact respelled_clash h hword

/-- The special cases of a name spelled `air.`, but for the conversions. -/
theorem special_plain {s : CallSite} (hhas : s.has 1) (hty : s.resultTyAir ≠ airTypeNone)
    (hfragment : s.fragment = true) :
    ((specialLowering s (Spelling.plain.key++(op++rest))).drop 2).findSome? id =
      if op = cstr "dot" ∧ s.has 2 then some .dot
      else if cstr "saturate" <+: op then some .saturate
      else if (cstr "sample_texture_2d" <+: op ∨ cstr "sample_texture_3d" <+: op) ∧ s.has 3 ∧
          s.sampledBound = true then some .sampleImage
      else if cstr "read_texture_2d" <+: op ∧ s.has 2 ∧ s.textureBound = true then
        some .fetchImage
      else if op = cstr "any" ∨ op = cstr "all" then some (.reduce 155)
      else if op = cstr "dfdx" then some (.derivative 207)
      else if op = cstr "dfdy" then some (.derivative 208)
      else if op = cstr "fwidth" then some (.derivative 209)
      else none := by
  have hdot := starts_plain_whole h "air.dot." (cstr "dot") rfl (by decide)
  have hany := starts_plain_whole h "air.any." (cstr "any") rfl (by decide)
  have hall := starts_plain_whole h "air.all." (cstr "all") rfl (by decide)
  have hdfdx := starts_plain_whole h "air.dfdx." (cstr "dfdx") rfl (by decide)
  have hdfdy := starts_plain_whole h "air.dfdy." (cstr "dfdy") rfl (by decide)
  have hfwidth := starts_plain_whole h "air.fwidth." (cstr "fwidth") rfl (by decide)
  have hsaturate := starts_plain_open h "air.saturate" (cstr "saturate") rfl (by decide)
  have h2d := starts_plain_open h "air.sample_texture_2d" (cstr "sample_texture_2d") rfl (by decide)
  have h3d := starts_plain_open h "air.sample_texture_3d" (cstr "sample_texture_3d") rfl (by decide)
  have hread := starts_plain_open h "air.read_texture_2d" (cstr "read_texture_2d") rfl (by decide)
  have hfast := starts_plain_respelled h "air.fast_saturate" (cstr "fast_saturate") rfl (by decide)
  have hprecise := starts_plain_respelled h "air.precise_saturate" (cstr "precise_saturate") rfl
    (by decide)
  simp only [specialLowering, List.drop_succ_cons, List.drop_zero, hdot, hany, hall, hdfdx, hdfdy,
    hfwidth, hsaturate, h2d, h3d, hread, hfast, hprecise, hhas, hty, hfragment, Bool.false_or,
    Bool.or_eq_true, decide_eq_true_eq, ne_eq, not_false_eq_true, and_true, true_and, findSome_ite,
    List.findSome?_nil]
  by_cases hreduce : op = cstr "any" ∨ op = cstr "all"
  · have hchar : (Spelling.plain.key++(op++rest)).getD 4 0 = 97 := by
      rcases hreduce with rfl | rfl <;> rfl
    rw [if_pos hreduce, if_pos hreduce, hchar]
    rfl
  · rw [if_neg hreduce, if_neg hreduce]
    by_cases hx : op = cstr "dfdx"
    · subst hx
      rfl
    · by_cases hy : op = cstr "dfdy"
      · subst hy
        rfl
      · by_cases hw : op = cstr "fwidth"
        · subst hw
          rfl
        · simp only [hx, hy, hw, or_self, if_false]

theorem special_other {s : CallSite} (hop : op ≠ cstr "convert") :
    (specialLowering s (Spelling.plain.key++(op++rest))).findSome? id =
      ((specialLowering s (Spelling.plain.key++(op++rest))).drop 2).findSome? id := by
  have hconvert := starts_plain_whole h "air.convert." (cstr "convert") rfl (by decide)
  rw [decide_eq_false hop] at hconvert
  simp only [specialLowering, hconvert, Bool.false_eq_true, false_and, if_false, findSome_none,
    List.drop_succ_cons, List.drop_zero]

end

/- What is emitted. -/

/-- The arguments of an operation. -/
def IntrinsicOp.arity : IntrinsicOp → Nat
  | .extInst _ numArgs => numArgs
  | .dot => 2
  | _ => 1

/-- A call with the arguments of the operation it names, whose result is used and has a type;
derivatives are of fragment shaders. -/
structure CallSite.Takes (s : CallSite) (op : List UInt8) : Prop where
  args : s.has (((intrinsicEntry op).map IntrinsicOp.arity).getD 1)
  typed : s.resultTyAir ≠ airTypeNone
  fragment : s.fragment = true

theorem CallSite.has.of_le {s : CallSite} {m n : Nat} (h : s.has n) (hle : m ≤ n) : s.has m :=
  ⟨lt_of_le_of_lt (Nat.add_le_add_left hle _) h.1, h.2⟩

theorem mem_of_lookup {name : List UInt8} {r : IntrinsicRow}
    (h : lookup intrinsicTable name = some r) : ∃ key, (key, r) ∈ intrinsicTable := by
  obtain ⟨e, he, heq⟩ := Option.map_eq_some_iff.1 h
  exact ⟨e.1, heq ▸ List.mem_of_find?_eq_some he⟩

/-- A row has an argument at least. -/
theorem CallSite.Takes.has_one {s : CallSite} {op : List UInt8} (hs : s.Takes op) : s.has 1 := by
  refine hs.args.of_le ?_
  cases he : intrinsicEntry op with
  | none => exact le_rfl
  | some e =>
    cases e with
    | extInst inst args =>
      obtain ⟨r, hr, hinst⟩ := intrinsicEntry_row he
      have hargs := intrinsicEntry_extInst he hr hinst
      have hne := (intrinsicTable_checked.1 r hr).2.1
      exact Nat.one_le_iff_ne_zero.2 (hargs ▸ hne)
    | dot => exact Nat.le_succ 1
    | _ => exact le_rfl

/-- Without a special case the name's row decides. -/
theorem emit_row {s : CallSite} {op name : List UInt8} (hs : s.Takes op)
    (hspecial : (specialLowering s name).findSome? id = none) (hair : starts "air." name = true) :
    (emitInstCall s name).operation = intrinsicEntry op ↔
      (lookup intrinsicTable name).map IntrinsicRow.operation = intrinsicEntry op := by
  have hone := hs.has_one
  simp only [emitInstCall, hspecial, hair, Bool.true_eq_false, false_and, and_false, if_false]
  cases hrow : lookup intrinsicTable name with
  | none =>
    refine Eq.congr ?_ rfl
    simp only
    split_ifs <;> rfl
  | some r =>
    obtain ⟨key, hmem⟩ := mem_of_lookup hrow
    have hsome : ¬(s.numOps ≤ s.calleeSlot+1 ∨ r.numArgs = 0) := by
      rintro (hle | hzero)
      · exact absurd hone.1 (not_lt.2 hle)
      · exact (intrinsicTable_checked.1 _ hmem).2.1 hzero
    simp only [if_neg hsome, CallLowering.operation, Option.map_some, IntrinsicRow.operation]
    constructor
    · intro h
      have hargs := intrinsicEntry_extInst h.symm hmem rfl
      rw [← h, hargs]
    · intro h
      have hargs := hs.args.1
      rw [← h] at hargs ⊢
      simp only [Option.map_some, IntrinsicOp.arity, Option.getD_some] at hargs
      rw [min_eq_left (by omega)]

theorem emit_special {s : CallSite} {name : List UInt8} {l : CallLowering}
    (h : (specialLowering s name).findSome? id = some l) : emitInstCall s name = l := by
  simp only [emitInstCall, h]

theorem starts_air (f : Spelling) (u : List UInt8) : starts "air." (f.key++u) = true := by
  rw [starts_iff]
  have hkey : cstr "air." <+: f.key := by
    cases f <;> decide
  exact hkey.trans (List.prefix_append _ _)

theorem starts_respelled {f : Spelling} {op rest : List UInt8} (h : Spells f op rest) (key : String)
    (word : List UInt8) (hkey : cstr key = f.key++word) (hfree : charDot ∉ word) :
    starts key (f.key++(op++rest)) = decide (word <+: op) := by
  refine starts_eq ?_
  rw [hkey, List.prefix_append_right_inj, prefix_part hfree h.rest_ends]

theorem starts_clash {f : Spelling} (key : String) (hp : ¬cstr key <+: f.key)
    (hk : ¬f.key <+: cstr key) (u : List UInt8) : starts key (f.key++u) = false := by
  rw [← Bool.not_eq_true, starts_iff]
  exact clash hp hk u

/-- Whether the special case saturate has this spelling. -/
def Spelling.bar : Spelling → Bool
  | .fastBar | .preciseBar => true
  | _ => false

theorem saturate_respelled {f : Spelling} (hf : f ≠ .plain) {op rest : List UInt8}
    (h : Spells f op rest) :
    (starts "air.fast_saturate" (f.key++(op++rest)) ||
        starts "air.precise_saturate" (f.key++(op++rest))) =
      (f.bar && decide (cstr "saturate" <+: op)) := by
  cases f with
  | plain => exact absurd rfl hf
  | fastBar =>
    rw [starts_respelled h "air.fast_saturate" (cstr "saturate") rfl (by decide),
      starts_clash "air.precise_saturate" (by decide) (by decide), Bool.or_false]
    rfl
  | preciseBar =>
    rw [starts_respelled h "air.precise_saturate" (cstr "saturate") rfl (by decide),
      starts_clash "air.fast_saturate" (by decide) (by decide), Bool.false_or]
    rfl
  | fastDot =>
    rw [starts_clash "air.fast_saturate" (by decide) (by decide),
      starts_clash "air.precise_saturate" (by decide) (by decide)]
    rfl
  | preciseDot =>
    rw [starts_clash "air.fast_saturate" (by decide) (by decide),
      starts_clash "air.precise_saturate" (by decide) (by decide)]
    rfl

theorem dispatched_respelled {f : Spelling} (hf : f ≠ .plain) (op : List UInt8) :
    dispatched f op = if (f.bar && decide (cstr "saturate" <+: op)) = true then some .saturate
      else (lookup (rowsOf f) op).map IntrinsicRow.operation := by
  cases f with
  | plain => exact absurd rfl hf
  | fastBar => simp only [dispatched, Spelling.bar, Bool.true_and, decide_eq_true_eq]
  | preciseBar => simp only [dispatched, Spelling.bar, Bool.true_and, decide_eq_true_eq]
  | fastDot => rfl
  | preciseDot => rfl

theorem emit_respelled {f : Spelling} (hf : f ≠ .plain) {op rest : List UInt8}
    (h : Spells f op rest) {s : CallSite} (hs : s.Takes op) :
    (emitInstCall s (f.key++(op++rest))).operation = intrinsicEntry op ↔
      dispatched f op = intrinsicEntry op := by
  have hspecial := special_respelled hf (op++rest) hs.has_one hs.typed
  rw [saturate_respelled hf h] at hspecial
  rw [dispatched_respelled hf]
  by_cases hsat : (f.bar && decide (cstr "saturate" <+: op)) = true
  · rw [if_pos hsat] at hspecial ⊢
    rw [emit_special hspecial]
    rfl
  · rw [if_neg hsat] at hspecial ⊢
    rw [emit_row hs hspecial (starts_air f _), lookup_spelled hf h]

/-- Two words that a name begins with. -/
theorem words_clash {op u v : List UInt8} (hu : u <+: op) (huv : ¬u <+: v) (hvu : ¬v <+: u) :
    ¬v <+: op := fun hv =>
  (List.prefix_or_prefix_of_prefix hu hv).elim huv hvu

/-- The names of texture accesses name nothing else. -/
theorem dispatched_texture {op word : List UInt8} (hword : word ∈ ["sample_texture_2d",
      "sample_texture_3d", "read_texture_2d"].map cstr) (h : word <+: op) :
    dispatched .plain op = none := by
  have hclash : ∀ word ∈ ["sample_texture_2d", "sample_texture_3d", "read_texture_2d"].map cstr,
      ∀ key ∈ ["dot", "saturate", "any", "all", "dfdx", "dfdy", "fwidth", "mix", "fma",
        "sign"].map cstr, ¬word <+: key ∧ ¬key <+: word := by
    decide
  have hne : ∀ key ∈ ["dot", "saturate", "any", "all", "dfdx", "dfdy", "fwidth", "mix", "fma",
      "sign"].map cstr, ¬key <+: op ∧ op ≠ key := by
    intro key hkey
    obtain ⟨hwk, hkw⟩ := hclash word hword key hkey
    exact ⟨words_clash h hwk hkw, fun heq => hwk (heq ▸ h)⟩
  simp only [List.map_cons, List.map_nil, List.forall_mem_cons] at hne
  obtain ⟨hdot, hsat, hany, hall, hdfdx, hdfdy, hfwidth, hmix, hfma, hsign, -⟩ := hne
  simp only [dispatched, hdot.2, hsat.1, hany.2, hall.2, hdfdx.2, hdfdy.2, hfwidth.2, hmix.1,
    hfma.2, hsign.2, or_self, if_false]

theorem intrinsicEntry_convert : intrinsicEntry (cstr "convert") = some .convert := by
  decide

theorem intrinsicEntry_dot : intrinsicEntry (cstr "dot") = some .dot := by
  decide

theorem emit_plain {op rest : List UInt8} (h : Spells .plain op rest) {s : CallSite}
    (hs : s.Takes op) (hop : op ≠ cstr "convert") :
    (emitInstCall s (Spelling.plain.key++(op++rest))).operation = intrinsicEntry op ↔
      dispatched .plain op = intrinsicEntry op := by
  have hspecial := (special_other h hop).trans (special_plain h hs.has_one hs.typed hs.fragment)
  by_cases hdot : op = cstr "dot"
  · have htwo : s.has 2 := by
      have hargs := hs.args
      rw [hdot, intrinsicEntry_dot] at hargs
      exact hargs
    rw [if_pos ⟨hdot, htwo⟩] at hspecial
    rw [emit_special hspecial, dispatched, if_pos hdot]
    rfl
  rw [if_neg (fun hand => hdot hand.1)] at hspecial
  by_cases hsat : cstr "saturate" <+: op
  · rw [if_pos hsat] at hspecial
    rw [emit_special hspecial, dispatched, if_neg hdot, if_pos hsat]
    rfl
  rw [if_neg hsat] at hspecial
  by_cases hsample : (cstr "sample_texture_2d" <+: op ∨ cstr "sample_texture_3d" <+: op) ∧
      s.has 3 ∧ s.sampledBound = true
  · rw [if_pos hsample] at hspecial
    have hnone : dispatched .plain op = none := by
      rcases hsample.1 with hword | hword
      · exact dispatched_texture (by simp) hword
      · exact dispatched_texture (by simp) hword
    rw [emit_special hspecial, hnone]
    rfl
  rw [if_neg hsample] at hspecial
  by_cases hread : cstr "read_texture_2d" <+: op ∧ s.has 2 ∧ s.textureBound = true
  · rw [if_pos hread] at hspecial
    rw [emit_special hspecial, dispatched_texture (by simp) hread.1]
    rfl
  rw [if_neg hread] at hspecial
  simp only [dispatched, if_neg hdot, if_neg hsat]
  by_cases hreduce : op = cstr "any" ∨ op = cstr "all"
  · rw [if_pos hreduce] at hspecial ⊢
    rw [emit_special hspecial]
    rfl
  rw [if_neg hreduce] at hspecial ⊢
  by_cases hx : op = cstr "dfdx"
  · rw [if_pos hx] at hspecial ⊢
    rw [emit_special hspecial]
    rfl
  rw [if_neg hx] at hspecial ⊢
  by_cases hy : op = cstr "dfdy"
  · rw [if_pos hy] at hspecial ⊢
    rw [emit_special hspecial]
    rfl
  rw [if_neg hy] at hspecial ⊢
  by_cases hw : op = cstr "fwidth"
  · rw [if_pos hw] at hspecial ⊢
    rw [emit_special hspecial]
    rfl
  rw [if_neg hw] at hspecial ⊢
  rw [emit_row hs hspecial (starts_air .plain _), lookup_plain h]
  split_ifs <;> rfl

/- Conversions. -/

/-- The kinds that a conversion of numbers or booleans has. -/
def ConvertName.Known (n : ConvertName) : Prop :=
  n.dstkind = charU ∨ n.dstkind = charS ∨ n.dstkind = charF ∧
    (n.srckind = charU ∨ n.srckind = charS ∨ n.srckind = charF ∨ n.srcIsBool = true)

theorem known_iff (n : ConvertName) :
    n.Known ↔ n.srcIsBool = true ∧ n.dstkind = charF ∨ n.convOp ≠ 0 := by
  have hne : charF ≠ charU ∧ charF ≠ charS ∧ charS ≠ charU := by decide
  obtain ⟨dstkind, srckind, srcIsBool, dstIsBool⟩ := n
  simp only [ConvertName.Known, ConvertName.convOp]
  by_cases hu : dstkind = charU
  · subst hu
    simp [hne.1.symm]
    split_ifs <;> simp
  · by_cases hs : dstkind = charS
    · subst hs
      simp [hne.2.1.symm, hne.2.2]
      split_ifs <;> simp
    · by_cases hf : dstkind = charF
      · subst hf
        by_cases hsu : srckind = charU
        · simp [hsu]
        · by_cases hss : srckind = charS
          · simp [hss, hne.2.2]
          · by_cases hsf : srckind = charF
            · simp [hsf, hne]
            · simp [hsu, hss, hsf, hne]
      · simp [hu, hs, hf]

/-- The special cases of a conversion. -/
theorem special_convert {rest : List UInt8} (h : Spells .plain (cstr "convert") rest)
    {s : CallSite} (hone : s.has 1) :
    (specialLowering s (Spelling.plain.key++(cstr "convert"++rest))).findSome? id =
      let n := convertName (rest.drop 1)
      if n.srcIsBool = true ∧ n.dstkind = charF then some .selectBool
      else if n.convOp ≠ 0 then
        some (if n.dstIsBool = true ∧ n.srckind = charF ∧ s.resultTyAir ≠ airTypeNone ∧
          s.boolCompared = true then .floatNotEqual else .convert n.convOp)
      else ((specialLowering s (Spelling.plain.key++(cstr "convert"++rest))).drop 2).findSome?
        id := by
  have hconvert := starts_plain_whole h "air.convert." (cstr "convert") rfl (by decide)
  rw [decide_eq_true rfl] at hconvert
  have hname : (Spelling.plain.key++(cstr "convert"++rest)).drop 12 = rest.drop 1 := rfl
  simp only [specialLowering, hname, hconvert, hone, true_and, and_true, findSome_ite,
    List.drop_succ_cons, List.drop_zero]

theorem emit_convert {rest : List UInt8} (h : Spells .plain (cstr "convert") rest) {s : CallSite}
    (hs : s.Takes (cstr "convert")) :
    (emitInstCall s (Spelling.plain.key++(cstr "convert"++rest))).operation = some .convert ↔
      (convertName (rest.drop 1)).Known := by
  have hone := hs.has_one
  have hspecial := special_convert h hone
  simp only at hspecial
  rw [known_iff]
  by_cases hbool : (convertName (rest.drop 1)).srcIsBool = true ∧
      (convertName (rest.drop 1)).dstkind = charF
  · rw [if_pos hbool] at hspecial
    rw [emit_special hspecial]
    exact iff_of_true rfl (Or.inl hbool)
  rw [if_neg hbool] at hspecial
  by_cases hop : (convertName (rest.drop 1)).convOp ≠ 0
  · rw [if_pos hop] at hspecial
    rw [emit_special hspecial]
    refine iff_of_true ?_ (Or.inr hop)
    split_ifs <;> rfl
  · rw [if_neg hop, special_plain h hone hs.typed hs.fragment, if_neg (fun hand => by
        exact absurd hand.1 (by decide)), if_neg (by decide), if_neg (fun hand => by
        exact absurd hand.1 (by decide)), if_neg (fun hand => by exact absurd hand.1 (by decide)),
      if_neg (by decide), if_neg (by decide), if_neg (by decide), if_neg (by decide)] at hspecial
    refine iff_of_false ?_ (fun hor => hor.elim hbool hop)
    rw [← intrinsicEntry_convert, emit_row hs hspecial (starts_air .plain _), lookup_plain h,
      intrinsicEntry_convert]
    decide

/- Every name. -/

/-- The names that a longer one is taken for. -/
def openKeys (f : Spelling) : List (List UInt8) :=
  match f with
  | .plain => [cstr "mix", cstr "saturate"]
  | f => (if f.bar = true then [cstr "saturate"] else [])++(rowsOf f).map Prod.fst

/-- The names that get what they stand for, by spelling, operation and type suffix. -/
def RightlyNamed (f : Spelling) (op rest : List UInt8) : Prop :=
  (op ∈ knownOps ∧ op ∈ rightOps f ∧
    (op = cstr "convert" → (convertName (rest.drop 1)).Known)) ∨
  (op ∉ knownOps ∧ ∀ key ∈ openKeys f, ¬key <+: op)

/-- The rows of fma and sign. -/
theorem mem_keyOps {op : List UInt8} (h : op ∈ [cstr "fma", cstr "sign"]) :
    op ∈ intrinsicTable.map fun r => keyOp r.1 := by
  have hfma : keyOp (cstr "air.fma.") = cstr "fma" := by decide
  have hsign : keyOp (cstr "air.sign.") = cstr "sign" := by decide
  have hrow : intrinsicRow "air.fma." .fma 3 ∈ intrinsicTable :=
    List.mem_iff_getElem?.2 ⟨95, rfl⟩
  have hrow' : intrinsicRow "air.sign." .fsign 1 ∈ intrinsicTable :=
    List.mem_iff_getElem?.2 ⟨97, rfl⟩
  simp only [List.mem_cons, List.not_mem_nil, or_false] at h
  cases h with
  | inl he => exact List.mem_map.2 ⟨_, hrow, hfma.trans he.symm⟩
  | inr he => exact List.mem_map.2 ⟨_, hrow', hsign.trans he.symm⟩

theorem dispatched_unknown {f : Spelling} {op : List UInt8} (hop : op ∉ knownOps) :
    dispatched f op = none ↔ ∀ key ∈ openKeys f, ¬key <+: op := by
  by_cases hf : f = .plain
  · subst hf
    have hne : ∀ word ∈ ["dot", "any", "all", "dfdx", "dfdy", "fwidth", "fma", "sign"].map cstr,
        word ∈ knownOps := by
      intro word hword
      have hsplit : word ∈ specialOps.map Prod.fst ∨ word ∈ [cstr "fma", cstr "sign"] := by
        revert word
        decide
      cases hsplit with
      | inl hs => exact List.mem_append_left _ hs
      | inr hrow => exact List.mem_append_right _ (mem_keyOps hrow)
    have hno : ∀ word ∈ ["dot", "any", "all", "dfdx", "dfdy", "fwidth", "fma", "sign"].map cstr,
        op ≠ word := fun word hword heq => hop (heq ▸ hne word hword)
    simp only [List.map_cons, List.map_nil, List.forall_mem_cons] at hno
    obtain ⟨hdot, hany, hall, hdfdx, hdfdy, hfwidth, hfma, hsign, -⟩ := hno
    simp only [dispatched, openKeys, List.forall_mem_cons, hdot, hany, hall, hdfdx, hdfdy, hfwidth,
      hfma, hsign, or_self, if_false]
    split_ifs <;> simp_all
  · have hkeys : openKeys f =
        (if f.bar = true then [cstr "saturate"] else [])++(rowsOf f).map Prod.fst := by
      cases f with
      | plain => exact absurd rfl hf
      | _ => rfl
    rw [dispatched_respelled hf, hkeys]
    cases hbar : f.bar with
    | false =>
      simp only [Bool.false_and, Bool.false_eq_true, if_false, List.nil_append,
        Option.map_eq_none_iff, PrefixTable.lookup_eq_none, List.forall_mem_map]
    | true =>
      by_cases hsat : cstr "saturate" <+: op
      · simp [hsat]
      · simp only [hsat, decide_false, Bool.and_false, Bool.false_eq_true, if_false, if_true,
          Option.map_eq_none_iff, PrefixTable.lookup_eq_none, List.forall_mem_append, List.forall_mem_map,
          List.forall_mem_singleton, not_false_eq_true, true_and]

theorem intrinsic_dispatch_iff {f : Spelling} {op rest : List UInt8} (h : Spells f op rest)
    {s : CallSite} (hs : s.Takes op) :
    (emitInstCall s (f.key++(op++rest))).operation = intrinsicEntry op ↔
      RightlyNamed f op rest := by
  by_cases hconvert : f = .plain ∧ op = cstr "convert"
  · obtain ⟨rfl, rfl⟩ := hconvert
    have hknown : cstr "convert" ∈ knownOps := by decide
    have hright : cstr "convert" ∈ rightOps .plain := by decide
    rw [intrinsicEntry_convert, emit_convert h hs]
    simp only [RightlyNamed, hknown, hright, true_and, forall_const, not_true_eq_false, false_and,
      or_false]
  · have hemit : (emitInstCall s (f.key++(op++rest))).operation = intrinsicEntry op ↔
        dispatched f op = intrinsicEntry op := by
      by_cases hf : f = .plain
      · subst hf
        exact emit_plain h hs (fun heq => hconvert ⟨rfl, heq⟩)
      · exact emit_respelled hf h hs
    rw [hemit, RightlyNamed]
    by_cases hop : op ∈ knownOps
    · have hchecked := (intrinsicTable_checked.2.1 f (mem_spellings f)).2.2 op hop
        (fun hf heq => hconvert ⟨hf, heq⟩)
      have hcases : op ∈ rightOps f → op = cstr "convert" →
          (convertName (rest.drop 1)).Known := by
        intro hmem heq
        subst heq
        refine absurd ⟨?_, rfl⟩ hconvert
        revert hmem
        cases f <;> decide
      rw [hchecked]
      simp only [hop, true_and, not_true_eq_false, false_and, or_false]
      exact ⟨fun hmem => ⟨hmem, hcases hmem⟩, fun hand => hand.1⟩
    · rw [intrinsicEntry_eq_none.2 hop, dispatched_unknown hop]
      simp only [hop, false_and, not_false_eq_true, true_and, false_or]

/- A call with two arguments in a fragment shader. -/
def someCall : CallSite := ⟨6, 3, 9, 0, false, true, false, false, false, false⟩

theorem someCall_takes {op : List UInt8}
    (h : someCall.has (((intrinsicEntry op).map IntrinsicOp.arity).getD 1)) : someCall.Takes op :=
  ⟨h, by decide, rfl⟩

theorem spells_f32 (f : Spelling) {op : List UInt8} (hop : charDot ∉ op)
    (hplain : f = .plain → op ≠ cstr "fast" ∧ op ≠ cstr "precise" ∧ ¬cstr "fast_" <+: op ∧
      ¬cstr "precise_" <+: op) : Spells f op (cstr ".f32") :=
  ⟨hop, fun _ ha => (Option.some.inj ha).symm, fun _ => (by decide), hplain⟩

theorem intrinsicEntry_exp2 : intrinsicEntry (cstr "exp2") = some (.extInst 29 1) := by
  decide

theorem someCall_exp2 : someCall.Takes (cstr "exp2") := by
  apply someCall_takes
  rw [intrinsicEntry_exp2]
  decide

theorem exp2_known : cstr "exp2" ∈ knownOps := by
  by_contra hno
  have hnone := intrinsicEntry_eq_none.2 hno
  rw [intrinsicEntry_exp2] at hnone
  cases hnone

theorem fast_exp2_right : (emitInstCall someCall
    (Spelling.fastBar.key++(cstr "exp2"++cstr ".f32"))).operation =
      intrinsicEntry (cstr "exp2") :=
  (intrinsic_dispatch_iff (spells_f32 .fastBar (by decide) (fun h => by cases h))
    someCall_exp2).2 (Or.inl ⟨exp2_known, by decide, fun h => absurd h (by decide)⟩)

/-- `exp2` is taken for `exp`, and `any` for `all`. -/
theorem exp2_any_wrong :
    Spells .fastDot (cstr "exp2") (cstr ".f32") ∧ someCall.Takes (cstr "exp2") ∧
      (emitInstCall someCall (Spelling.fastDot.key++(cstr "exp2"++cstr ".f32"))).operation =
        some (.extInst 27 1) ∧
      intrinsicEntry (cstr "exp2") = some (.extInst 29 1) ∧
    Spells .plain (cstr "any") (cstr ".f32") ∧ someCall.Takes (cstr "any") ∧
      (emitInstCall someCall (Spelling.plain.key++(cstr "any"++cstr ".f32"))).operation =
        some .all ∧
      intrinsicEntry (cstr "any") = some .any := by
  refine ⟨spells_f32 .fastDot (by decide) (fun h => by cases h), someCall_exp2, ?_,
    intrinsicEntry_exp2, spells_f32 .plain (by decide) (fun _ => by decide), someCall_takes ?_, ?_, ?_⟩
  all_goals decide

end Lagfx
